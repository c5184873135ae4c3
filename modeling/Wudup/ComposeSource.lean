import Mathlib.Data.Char
import Mathlib.Data.List.Lex
import Mathlib.Data.Prod.Lex
import Wudup.Library.Unicode
import Wudup.Models

/-! A Compose document as it was parsed, and the edits of its services and of its source text. -/
namespace Wudup
open Library

inductive RewriteError where
  | composeTagRewrite (message : String)
  | labelRewriteApprovalRequired (service labelKey currentLabelValue plannedTag proposedLabelValue
      proposedLabelRegex : Str)
  | resolvedTagMarkerConflict (service : Str) (tags : List Str)
  /-- A location that the source does not have. -/
  | indexError
  deriving DecidableEq, Repr

abbrev Rewrite := Except RewriteError

def text (value : Str) : String := String.ofList value

def refuse {α : Type} (message : String) : Rewrite α := .error (.composeTagRewrite message)

structure Location where
  line : ℕ
  col : ℕ
  deriving DecidableEq, Repr

/-- Tells parsed objects apart: an alias is the object it refers to, and a new object has no number. -/
structure Node where
  id : Option ℕ := none
  anchored : Bool := false
  deriving DecidableEq, Repr

def Node.same (a b : Node) : Bool := a.id.isSome && a.id = b.id

inductive YamlScalar where
  | null
  | text (value : Str)
  | other (shown : Str)
  deriving DecidableEq, Repr

def YamlScalar.shown : YamlScalar → Str
  | null => "None".toList
  | text value => value
  | other shown => shown

/-- A field of a service; a field that is not direct is merged from another mapping. -/
structure ImageField where
  direct : Bool
  value : YamlScalar
  node : Node := {}
  location : Option Location := none
  keyLocation : Option Location := none
  deriving DecidableEq, Repr

structure LabelEntry where
  key : Str
  value : YamlScalar
  direct : Bool := true
  location : Option Location := none
  keyLocation : Option Location := none
  deriving DecidableEq, Repr

/-- An entry of a label list; an entry that is not text has none. -/
structure LabelItem where
  text : Option Str
  location : Option Location := none
  deriving DecidableEq, Repr

inductive LabelCollection where
  | null
  | mapping (entries : List LabelEntry)
  | sequence (items : List LabelItem)
  | other
  deriving DecidableEq, Repr

structure LabelsField where
  direct : Bool
  value : LabelCollection
  node : Node := {}
  location : Option Location := none
  keyLocation : Option Location := none
  deriving DecidableEq, Repr

/-- A service's mapping with the lists of comment tokens around it. -/
structure ServiceConfig where
  node : Node := {}
  image : Option ImageField
  labels : Option LabelsField := none
  comments : List (List Str) := []
  deriving DecidableEq, Repr

/-- A key of the services; one that is not text has no name, and its value may be no mapping. -/
structure ServiceEntry where
  name : Option Str
  config : Option ServiceConfig
  deriving DecidableEq, Repr

structure ComposeDocument where
  source : Str
  services : List ServiceEntry
  deriving DecidableEq, Repr

def ComposeDocument.config (document : ComposeDocument) (service : Str) : Option ServiceConfig :=
  (document.services.find? (·.name = some service)).bind (·.config)

/-- The document after a service's mapping was edited in place. -/
def ComposeDocument.setConfig (document : ComposeDocument) (service : Str) (config : ServiceConfig) :
    ComposeDocument :=
  { document with services := document.services.map fun entry =>
      if entry.name = some service then { entry with config := some config } else entry }

/-- The mappings of the other services. -/
def ComposeDocument.others (document : ComposeDocument) (service : Str) : List ServiceConfig :=
  (document.services.filter (·.name ≠ some service)).filterMap (·.config)

def directServiceConfig (document : ComposeDocument) (service : Str) : Rewrite ServiceConfig :=
  match document.config service with
  | some config => .ok config
  | none => refuse s!"Service {text service} is not a mapping with a direct image field."

def rejectAnchorOrAliasServiceConfig (document : ComposeDocument) (service : Str) (config : ServiceConfig) :
    Rewrite Unit :=
  if config.node.anchored || (document.others service).any fun other => other.node.same config.node then
    refuse s!"Service {text service} uses YAML anchors or aliases and needs manual review."
  else .ok ()

def rejectAnchorOrAliasImageValue (document : ComposeDocument) (service : Str) (config : ServiceConfig) :
    Rewrite Unit :=
  match config.image with
  | none => .ok ()
  | some image =>
    if image.node.anchored || (document.others service).any fun other =>
        other.image.any fun field => field.node.same image.node then
      refuse s!"Service {text service} image uses YAML anchors or aliases and needs manual review."
    else .ok ()

/-- The mapping of a service whose image may be rewritten. -/
def rewriteServiceConfig (document : ComposeDocument) (service : Str) (directImageRequired : Bool) :
    Rewrite ServiceConfig := do
  let config ← directServiceConfig document service
  rejectAnchorOrAliasServiceConfig document service config
  let hasDirectImage := config.image.any (·.direct)
  let hasImage := config.image.any fun image => image.value ≠ .null
  if !hasDirectImage && (directImageRequired || hasImage) then
    refuse s!"Service {text service} image is inherited and needs manual review."
  rejectAnchorOrAliasImageValue document service config
  return config

/-- Inherited labels are copied into the service before they are edited. -/
def materializeInheritedServiceLabels (config : ServiceConfig) (service : Str) : Rewrite ServiceConfig :=
  match config.labels with
  | none => .ok config
  | some labels =>
    if labels.direct then .ok config
    else
      match labels.value with
      | .null => .ok config
      | .mapping entries =>
        let copied := entries.map fun entry => { key := entry.key, value := entry.value }
        .ok { config with labels := some { direct := true, value := .mapping copied } }
      | .sequence items =>
        let copied := items.map fun item => { text := item.text }
        .ok { config with labels := some { direct := true, value := .sequence copied } }
      | .other => refuse s!"Service {text service} labels use unsupported YAML syntax."

def rejectAnchorOrAliasLabels (document : ComposeDocument) (service : Str) (labels : LabelsField) :
    Rewrite Unit :=
  if labels.node.anchored || (document.others service).any fun other =>
      other.labels.any fun field => field.node.same labels.node then
    refuse s!"Service {text service} labels use YAML anchors or aliases and need manual review."
  else .ok ()

def prepareServiceLabels (document : ComposeDocument) (service : Str) (config : ServiceConfig) :
    Rewrite ServiceConfig := do
  let config ← materializeInheritedServiceLabels config service
  match config.labels with
  | none => return config
  | some labels =>
    if labels.value ≠ .null then rejectAnchorOrAliasLabels document service labels
    return config

def labelKey (entry : Str) : Str := ((cut '=' entry).map (·.1)).getD entry

def labelValue (entry : Str) : Str := ((cut '=' entry).map (·.2)).getD []

def unsupportedServiceLabels : String := "Service labels use unsupported YAML syntax."

/-- Looks on for the entry that declares a key; before one with a value, every entry must be text. -/
def sequenceLabelIndexFrom (key service : Str) : ℕ → Bool → Option ℕ → List LabelItem → Rewrite (Option ℕ)
  | _, _, declared, [] => .ok declared
  | index, valued, declared, item :: rest =>
    match item.text with
    | none =>
      if valued then sequenceLabelIndexFrom key service (index + 1) valued declared rest
      else refuse "Service labels use unsupported non-string list entries."
    | some entry =>
      if labelKey entry ≠ key then sequenceLabelIndexFrom key service (index + 1) valued declared rest
      else if declared.isSome then
        refuse (s!"Service {text service} lists the {text key} label more than once; Docker Compose " ++
          "uses only the last one, so WUDup will not change it. Remove the " ++
          s!"duplicate {text key} entries from the service labels, then try again.")
      else sequenceLabelIndexFrom key service (index + 1) (entry.contains '=') (some index) rest

/-- The entry that declares a key, which may be declared once only. -/
def sequenceLabelIndex (items : List LabelItem) (key service : Str) : Rewrite (Option ℕ) :=
  sequenceLabelIndexFrom key service 0 false none items

def LabelsField.collection (labels : Option LabelsField) : LabelCollection :=
  (labels.map (·.value)).getD .null

/-- The value of a label; a label that is not declared has the empty value. -/
def getServiceLabelValue (config : ServiceConfig) (key service : Str) : Rewrite Str :=
  match LabelsField.collection config.labels with
  | .null => .ok []
  | .mapping entries =>
    match entries.find? (·.key = key) with
    | none | some { value := .null, .. } => .ok []
    | some { value := .text value, .. } => .ok value
    | some { value := .other _, .. } => refuse s!"Label {text key} is not a string value."
  | .sequence items => do
    match ← sequenceLabelIndex items key service with
    | none => return []
    | some index => return labelValue (((items[index]?).bind (·.text)).getD [])
  | .other => refuse unsupportedServiceLabels

/-- Whether a label is declared at all, with any value. -/
def serviceLabelPresent (config : ServiceConfig) (key : Str) : Rewrite Bool :=
  match LabelsField.collection config.labels with
  | .null => .ok false
  | .mapping entries => .ok (entries.any (·.key = key))
  | .sequence items => .ok (items.any fun item => item.text.any fun entry => labelKey entry = key)
  | .other => refuse unsupportedServiceLabels

def labelText (key value : Str) : Str := key ++ '=' :: value

def setMappingLabel (entries : List LabelEntry) (key value : Str) : List LabelEntry :=
  if entries.any (·.key = key) then
    entries.map fun entry => if entry.key = key then { entry with value := .text value, direct := true } else entry
  else entries ++ [{ key, value := .text value }]

/-- The service with a label set; a service without labels gets a list of them. -/
def setServiceLabelValue (config : ServiceConfig) (key value service : Str) : Rewrite ServiceConfig :=
  let withLabels := fun (collection : LabelCollection) =>
    { config with labels := some { (config.labels.getD { direct := true, value := .null }) with
        direct := true, value := collection } }
  match LabelsField.collection config.labels with
  | .null =>
    let items := [{ text := some (labelText key value) }]
    .ok { config with labels := some { direct := true, value := .sequence items } }
  | .mapping entries => .ok (withLabels (.mapping (setMappingLabel entries key value)))
  | .sequence items => do
    match ← sequenceLabelIndex items key service with
    | none => return withLabels (.sequence (items ++ [{ text := some (labelText key value) }]))
    | some index =>
      return withLabels (.sequence (items.modify index fun item => { item with text := some (labelText key value) }))
  | .other => refuse unsupportedServiceLabels

/-- The ends of the line breaks after an offset. -/
def lineBreakEnds : ℕ → Str → List ℕ
  | _, [] => []
  | offset, c :: rest =>
    if c = '\n' then (offset + 1) :: lineBreakEnds (offset + 1) rest else lineBreakEnds (offset + 1) rest

def lineStartOffsets (source : Str) : List ℕ := 0 :: lineBreakEnds 0 source

structure SourceLine where
  start : ℕ
  stop : ℕ
  body : Str
  deriving DecidableEq, Repr

/-- A line of the source; its body lacks the carriage return that may end it. -/
def sourceLine (source : Str) (lineNo : ℕ) : Option SourceLine :=
  (lineStartOffsets source)[lineNo]?.map fun start =>
    let line := (source.drop start).takeWhile (· ≠ '\n')
    { start
      stop := start + line.length
      body := if line.getLast? = some '\r' then line.dropLast else line }

def readSourceLine (source : Str) (lineNo : ℕ) : Rewrite SourceLine :=
  match sourceLine source lineNo with
  | some line => .ok line
  | none => .error .indexError

def isBlank (c : Char) : Bool := c = ' ' || c = '\t'

def lineIndentWidth (line : Str) : ℕ := (line.takeWhile isBlank).length

/-- A replacement of the source between two offsets. -/
structure SpanRewrite where
  start : ℕ
  stop : ℕ
  replacement : Str
  deriving DecidableEq, Repr

/-- The text after a key between two quotes. -/
def afterQuoted (key body : Str) : Option Str :=
  match body with
  | c :: rest =>
    if (c = '"' || c = '\'') && key.isPrefixOf rest then
      match rest.drop key.length with
      | d :: rest => if d = '"' || d = '\'' then some rest else none
      | [] => none
    else none
  | [] => none

/-- The text after a key and its colon, with the length of what was read. -/
def afterYamlKey (key body : Str) : Option (ℕ × Str) :=
  let indented := body.dropWhile isBlank
  let afterKey := (afterQuoted key indented).or
    (if key.isPrefixOf indented then some (indented.drop key.length) else none)
  (afterKey.map (·.dropWhile isBlank)).bind fun rest =>
    match rest with
    | ':' :: value => some (body.length - value.length,value)
    | _ => none

/-- Nothing but blanks and a comment. -/
def blankOrComment (tail : Str) : Bool :=
  match tail.dropWhile isBlank with
  | [] => true
  | c :: _ => c = '#'

/-- The number of characters before a value that is alone on its line, quoted or not. -/
def scalarOffset (value rest : Str) : Option ℕ :=
  (List.range ((rest.takeWhile isBlank).length + 1)).reverse.findSome? fun blanks =>
    let quotes := match rest.drop blanks with
      | '"' :: _ => [['"'],[]]
      | '\'' :: _ => [['\''],[]]
      | _ => [[]]
    quotes.findSome? fun quote =>
      if (quote ++ value ++ quote).isPrefixOf (rest.drop blanks) &&
          blankOrComment (rest.drop (blanks + (quote ++ value ++ quote).length)) then
        some (blanks + quote.length)
      else none

/-- An image on the line after its key: the rewrite joins the lines. -/
def multilinePlainImageScalarRewrite (source : Str) (keyLineNo valueLineNo : ℕ) (oldImage : Str) :
    Option SpanRewrite := do
  let keyLine ← sourceLine source keyLineNo
  if valueLineNo ≠ keyLineNo + 1 then none
  let (_,trailing) ← afterYamlKey "image".toList keyLine.body
  if !trailing.all isBlank then none
  let valueLine ← sourceLine source valueLineNo
  let offset ← (List.range ((valueLine.body.takeWhile isBlank).length + 1)).reverse.find? fun blanks =>
    blanks ≠ 0 && oldImage.isPrefixOf (valueLine.body.drop blanks) &&
      (valueLine.body.drop (blanks + oldImage.length)).all isBlank
  let indent := lineIndentWidth keyLine.body
  if offset ≤ indent then none
  match sourceLine source (valueLineNo + 1) with
  | some nextLine => if strip nextLine.body ≠ [] && lineIndentWidth nextLine.body > indent then none
  | none => pure ()
  return { start := keyLine.start + keyLine.body.length
           stop := valueLine.start + offset + oldImage.length
           replacement := if trailing = [] then [' '] else [] }

/-- Where a service's image stands in the source; the replacement is what goes before a new image. -/
def serviceImageScalarRewrite (document : ComposeDocument) (service oldImage : Str) : Rewrite SpanRewrite := do
  let config ← directServiceConfig document service
  match config.image with
  | some { value := .text imageValue, location, keyLocation, .. } =>
    if imageValue.contains '$' then
      refuse s!"Service {text service} image uses interpolation and needs manual review."
    if imageValue ≠ oldImage then
      refuse s!"Service {text service} image is {text imageValue}, expected {text oldImage}."
    match location with
    | none => refuse s!"Service {text service} image source location is unavailable."
    | some location =>
      match sourceLine document.source location.line with
      | none => refuse s!"Service {text service} image source location is invalid."
      | some line =>
        let found := (afterYamlKey "image".toList line.body).bind fun (read,value) =>
          (scalarOffset oldImage value).map fun offset => line.start + read + offset
        match found with
        | some start => return { start, stop := start + oldImage.length, replacement := [] }
        | none =>
          match keyLocation with
          | none => refuse s!"Service {text service} image source location is unavailable."
          | some keyLocation =>
            match multilinePlainImageScalarRewrite document.source keyLocation.line location.line oldImage with
            | some rewrite => return rewrite
            | none =>
              refuse (s!"Service {text service} image uses unsupported YAML syntax for automatic " ++ "rewrite.")
  | _ => refuse s!"Service {text service} image is not a direct string scalar."

abbrev Span := ℕ × ℕ

def SpanRewrite.span (rewrite : SpanRewrite) : Span := (rewrite.start,rewrite.stop)

def rejectDuplicateImageSpan (seenSpans : List Span) (span : Span) (service image : Str) : Rewrite (List Span) :=
  if seenSpans.contains span then
    refuse s!"Service {text service} image for {text image} was selected more than once."
  else .ok (seenSpans ++ [span])

/-- The place of an image that no other update has selected. -/
def uniqueImageRewrite (document : ComposeDocument) (service expectedImage : Str) (seenSpans : List Span)
    (selectedImage : Str) : Rewrite (SpanRewrite × List Span) := do
  let rewrite ← serviceImageScalarRewrite document service expectedImage
  let seenSpans ← rejectDuplicateImageSpan seenSpans rewrite.span service selectedImage
  return (rewrite,seenSpans)

def doubled (c : Char) (value : Str) : Str := value.flatMap fun d => if d = c then [c,c] else [d]

def containsText (part value : Str) : Bool := (cutText part value).isSome

/-- A label's value written like the token it replaces. -/
def renderYamlScalarLike (token value : Str) (flow : Bool) : Rewrite Str :=
  let singleQuoted := '\'' :: doubled '\'' value ++ ['\'']
  if value.contains '\n' || value.contains '\r' then refuse "Label value cannot contain a line break."
  else if token.head? = some '\'' then .ok singleQuoted
  else if token.head? = some '"' then
    .ok ('"' :: (value.flatMap fun c => if c = '\\' || c = '"' then ['\\',c] else [c]) ++ ['"'])
  else
    let unsafeInitial := value.head?.any fun c => "-?:,[]\x7b\x7d#&*!|>'\"%@\x60".toList.contains c
    let unsafeContent := [" #","\t#",": ",":\t"].any fun marker => containsText marker.toList value
    let unsafeFlow := flow && value.any fun c => "[]\x7b\x7d,".toList.contains c
    .ok (if unsafeInitial || unsafeContent || unsafeFlow then singleQuoted else value)

def yamlScalarBoundaryMatches (tail : Str) (flow : Bool) : Bool :=
  if flow then (tail.dropWhile isBlank).head?.any fun c => ",\x7d]#".toList.contains c
  else blankOrComment tail

/-- Replaces the token of a label's value, which may be quoted. -/
def yamlScalarSourceRewrite (source : Str) (location : Location) (expected replacement : Str) (flow : Bool) :
    Rewrite SpanRewrite := do
  let line ← readSourceLine source location.line
  if line.body.length ≤ location.col then refuse "Label source location is invalid."
  let doubleQuoted ← renderYamlScalarLike ['"'] expected false
  let representations := [expected,'\'' :: doubled '\'' expected ++ ['\''],doubleQuoted]
  let rest := line.body.drop location.col
  let token := (representations.find? fun candidate =>
    candidate.isPrefixOf rest && yamlScalarBoundaryMatches (rest.drop candidate.length) flow).getD []
  if token = [] then refuse "Label uses unsupported YAML syntax for automatic rewrite."
  let rendered ← renderYamlScalarLike token replacement flow
  return ⟨line.start + location.col,line.start + location.col + token.length,rendered⟩

def sourceLinesInsertion (source : Str) (offset : ℕ) (lines : List Str) : Str :=
  let leading := if offset = 0 || source[offset - 1]? = some '\n' then [] else ['\n']
  let trailing := if offset < source.length || source.getLast? = some '\n' then ['\n'] else []
  leading ++ ['\n'].intercalate lines ++ trailing

def locationUnavailable : String := "Service labels source location is unavailable."

/-- A service without labels gets a list of them below its image. -/
def newServiceLabelsRewrite (config : ServiceConfig) (key value source : Str) : Rewrite SpanRewrite := do
  match config.image.bind (·.location),config.image.bind (·.keyLocation) with
  | some location,some keyLocation =>
    let line ← readSourceLine source location.line
    let insertion := if line.stop < source.length then line.stop + 1 else line.stop
    let indent := List.replicate keyLocation.col ' '
    let label ← renderYamlScalarLike [] (labelText key value) false
    return ⟨insertion,insertion,sourceLinesInsertion source insertion
      [indent ++ "labels:".toList,indent ++ "  - ".toList ++ label]⟩
  | _,_ => refuse "Service image source location is unavailable."

/-- What stands for an empty value: nothing or a null, with blanks behind it. -/
def afterNull (value : Str) : Str :=
  let rest := ["null".toList,"Null".toList,"NULL".toList,['~']].findSome? fun word =>
    if word.isPrefixOf value then some ((value.drop word.length).dropWhile isBlank) else none
  rest.getD value

/-- Labels that are declared empty get a list. -/
def emptyServiceLabelsRewrite (labels : LabelsField) (key value source : Str) : Rewrite SpanRewrite := do
  match labels.keyLocation with
  | none => refuse locationUnavailable
  | some keyLocation =>
    let line ← readSourceLine source keyLocation.line
    match afterYamlKey "labels".toList line.body with
    | none => refuse "Service labels use unsupported empty YAML syntax."
    | some (_,rest) =>
      let rest := rest.dropWhile isBlank
      let comment := afterNull rest
      if comment ≠ [] && comment.head? ≠ some '#' then
        refuse "Service labels use unsupported empty YAML syntax."
      let label ← renderYamlScalarLike [] (labelText key value) false
      return ⟨line.start + (line.body.length - rest.length),line.start + line.body.length,
        comment ++ '\n' :: List.replicate (keyLocation.col + 2) ' ' ++ "- ".toList ++ label⟩

inductive FlowMode where
  | plain
  | comment
  | single
  | double (escaped : Bool)
  deriving DecidableEq, Repr

def closes (opening closing : Char) : Bool :=
  (opening = '[' && closing = ']') || (opening = '\x7b' && closing = '\x7d')

/-- The index behind the bracket that closes a collection, and its last significant character before. -/
def flowBounds (start : ℕ) : Option Char → ℕ → ℕ → List Char → FlowMode → Str → Rewrite (ℕ × ℕ)
  | _, _, _, _, _, [] => refuse "Service labels use an unterminated flow collection."
  | previous, index, last, opened, mode, c :: rest =>
    match mode with
    | .comment =>
      flowBounds start (some c) (index + 1) last opened (if c = '\n' then .plain else .comment) rest
    | .single =>
      if c = '\'' then
        match rest with
        | '\'' :: rest => flowBounds start (some '\'') (index + 2) (index + 1) opened .single rest
        | rest => flowBounds start (some c) (index + 1) index opened .plain rest
      else flowBounds start (some c) (index + 1) index opened .single rest
    | .double escaped =>
      let mode := if escaped then .double false else if c = '\\' then .double true
        else if c = '"' then .plain else .double false
      flowBounds start (some c) (index + 1) index opened mode rest
    | .plain =>
      if c = '#' && (index = start || previous.any fun p => whitespace.contains p) then
        flowBounds start (some c) (index + 1) last opened .comment rest
      else if c = '\'' then flowBounds start (some c) (index + 1) index opened .single rest
      else if c = '"' then flowBounds start (some c) (index + 1) index opened (.double false) rest
      else if c = '[' || c = '\x7b' then flowBounds start (some c) (index + 1) index (c :: opened) .plain rest
      else if c = ']' || c = '\x7d' then
        match opened with
        | [] => refuse "Service labels use a malformed flow collection."
        | opening :: others =>
          if !closes opening c then refuse "Service labels use a malformed flow collection."
          else if others = [] then .ok (index + 1,last)
          else flowBounds start (some c) (index + 1) index others .plain rest
      else if whitespace.contains c then flowBounds start (some c) (index + 1) last opened .plain rest
      else flowBounds start (some c) (index + 1) index opened .plain rest

def flowCollectionBounds (source : Str) (start : ℕ) : Rewrite (ℕ × ℕ) :=
  flowBounds start none start start [] .plain (source.drop start)

def entryLocations (labels : LabelCollection) : List (Option Location) :=
  match labels with
  | .mapping entries => entries.map fun entry => if entry.direct then entry.keyLocation else none
  | .sequence items => items.map (·.location)
  | _ => []

/-- The indent of the first entry that starts its line. -/
def entryIndent (source : Str) (openingLineNo : ℕ) (indent : Str) : List Location → Rewrite Str
  | [] => .ok indent
  | location :: rest =>
    if location.line ≤ openingLineNo then entryIndent source openingLineNo indent rest
    else match sourceLine source location.line with
      | none => .error .indexError
      | some line =>
        if strip (line.body.take location.col) = [] then .ok (line.body.take location.col)
        else entryIndent source openingLineNo indent rest

def multilineFlowLabelIndent (labels : LabelCollection) (source : Str) (start : ℕ) (closingPrefix : Str) :
    Rewrite Str :=
  match (entryLocations labels).mapM id with
  | none => refuse locationUnavailable
  | some locations =>
    entryIndent source ((source.take start).count '\n') (closingPrefix ++ "  ".toList) locations

/-- Adds an entry to a flow collection, on its line or on a line of its own. -/
def flowLabelAdditionRewrites (labels : LabelCollection) (entry source : Str) (start : ℕ) :
    Rewrite (List SpanRewrite) := do
  let (stop,last) ← flowCollectionBounds source start
  let needsComma := last ≠ start && source[last]? ≠ some ','
  let comma := if needsComma then [⟨last + 1,last + 1,[',']⟩] else []
  let collection := (source.take stop).drop start
  if !collection.contains '\n' then
    if needsComma && last + 1 = stop - 1 then
      return [⟨stop - 1,stop - 1,", ".toList ++ entry ++ [',']⟩]
    else
      let before := if last = start then [] else [' ']
      return comma ++ [⟨stop - 1,stop - 1,before ++ entry ++ [',']⟩]
  else
    let closingPrefix := (collection.dropLast.reverse.takeWhile (· ≠ '\n')).reverse
    if strip closingPrefix ≠ [] then
      refuse "Service labels use unsupported multiline flow-style YAML syntax."
    let indent ← multilineFlowLabelIndent labels source start closingPrefix
    let closingLineStart := stop - 1 - closingPrefix.length
    return comma ++ [⟨closingLineStart,closingLineStart,indent ++ entry ++ [',','\n']⟩]

/-- The start of the first line after a key that is not indented deeper. -/
def yamlBlockEndOffset (source : Str) (keyLocation : Location) : ℕ :=
  let lines := (List.range (lineStartOffsets source).length).filterMap (sourceLine source)
  match (lines.drop (keyLocation.line + 1)).find? fun line =>
      strip line.body ≠ [] && lineIndentWidth line.body ≤ keyLocation.col with
  | some line => line.start
  | none => source.length

def blockLabelEntryIndent (labels : LabelCollection) (source : Str) (labelsCol : ℕ) : Rewrite Str :=
  match labels with
  | .mapping (entry :: _) =>
    match (if entry.direct then entry.keyLocation else none) with
    | some location => .ok (List.replicate location.col ' ')
    | none => refuse locationUnavailable
  | .sequence (item :: _) =>
    match item.location with
    | none => refuse locationUnavailable
    | some location => do
      let line ← readSourceLine source location.line
      if (line.body.dropWhile isBlank).head? = some '-' then return line.body.takeWhile isBlank
      else refuse "Service labels use unsupported YAML syntax for automatic rewrite."
  | _ => .ok (List.replicate (labelsCol + 2) ' ')

def appendBlockLabelRewrite (labels : LabelsField) (entry source : Str) : Rewrite SpanRewrite := do
  match labels.keyLocation with
  | none => refuse locationUnavailable
  | some keyLocation =>
    let insertion := yamlBlockEndOffset source keyLocation
    let indent ← blockLabelEntryIndent labels.value source keyLocation.col
    return ⟨insertion,insertion,sourceLinesInsertion source insertion [indent ++ entry]⟩

/-- Where a flow collection of labels starts; a block collection has no start. -/
def serviceLabelsFlowStart (labels : LabelsField) (source : Str) : Rewrite (Option ℕ) :=
  match labels.location with
  | none => refuse locationUnavailable
  | some location =>
    match (lineStartOffsets source)[location.line]? with
    | none => refuse locationUnavailable
    | some lineStart =>
      let start := lineStart + location.col
      .ok (if source[start]? = some '[' || source[start]? = some '\x7b' then some start else none)

def mappingLabelSourceRewrites (labels : LabelsField) (entries : List LabelEntry) (key value source : Str)
    (flowStart : Option ℕ) : Rewrite (List SpanRewrite) := do
  match entries.find? (·.key = key) with
  | some entry =>
    if !entry.direct then refuse s!"Label {text key} is inherited and needs manual review."
    match entry.location with
    | none => refuse s!"Label {text key} source location is unavailable."
    | some location =>
      match entry.value with
      | .text current => return [← yamlScalarSourceRewrite source location current value flowStart.isSome]
      | _ => refuse s!"Label {text key} is not a string value."
  | none =>
    let entry := key ++ ": ".toList ++ (← renderYamlScalarLike [] value flowStart.isSome)
    match flowStart with
    | some start => flowLabelAdditionRewrites labels.value entry source start
    | none => return [← appendBlockLabelRewrite labels entry source]

def sequenceLabelSourceRewrites (labels : LabelsField) (items : List LabelItem) (key value source : Str)
    (flowStart : Option ℕ) (service : Str) : Rewrite (List SpanRewrite) := do
  match ← sequenceLabelIndex items key service with
  | some index =>
    match (items[index]?).bind (·.location) with
    | none => refuse s!"Label {text key} source location is unavailable."
    | some location =>
      let current := ((items[index]?).bind (·.text)).getD []
      return [← yamlScalarSourceRewrite source location current (labelText key value) flowStart.isSome]
  | none =>
    let inserted ← renderYamlScalarLike [] (labelText key value) flowStart.isSome
    match flowStart with
    | some start => flowLabelAdditionRewrites labels.value inserted source start
    | none => return [← appendBlockLabelRewrite labels ("- ".toList ++ inserted) source]

/-- The replacements of the source text that set a label. -/
def serviceLabelSourceRewrite (config : ServiceConfig) (key value source service : Str) :
    Rewrite (List SpanRewrite) := do
  match config.labels with
  | none => return [← newServiceLabelsRewrite config key value source]
  | some labels =>
    match labels.value with
    | .null =>
      if labels.direct then return [← emptyServiceLabelsRewrite labels key value source]
      else return [← newServiceLabelsRewrite config key value source]
    | .mapping entries =>
      mappingLabelSourceRewrites labels entries key value source (← serviceLabelsFlowStart labels source)
    | .sequence items =>
      sequenceLabelSourceRewrites labels items key value source (← serviceLabelsFlowStart labels source) service
    | .other => refuse unsupportedServiceLabels

def replaceSpan (rendered : Str) (rewrite : SpanRewrite) : Str :=
  rendered.take rewrite.start ++ rewrite.replacement ++ rendered.drop rewrite.stop

/-- The order of rewrites as tuples. -/
def SpanRewrite.sortKey (rewrite : SpanRewrite) : ℕ ×ₗ ℕ ×ₗ Str :=
  toLex (rewrite.start,toLex (rewrite.stop,rewrite.replacement))

def resolvedTagMarkerPrefixes : List Str := ["wudup.resolved-tag=".toList,"wud-updater.resolved-tag=".toList]

/-- The tag a comment line marks. -/
def commentLineResolvedTagMarker (line : Str) : Option Str :=
  let stripped := strip line
  let comment := if stripped.head? = some '#' then strip stripped.tail else stripped
  resolvedTagMarkerPrefixes.findSome? fun marker =>
    if marker.isPrefixOf comment then some (strip (comment.drop marker.length)) else none

def commentTokenResolvedTagMarkers (token : Str) : List Str :=
  (keepLines token).filterMap fun line => (commentLineResolvedTagMarker line).filter (· ≠ [])

def clearCommentTokenResolvedTagMarkers (token : Str) : Str :=
  ((keepLines token).filter fun line => (commentLineResolvedTagMarker line).isNone).flatten

end Wudup

import Wudup.ComposeSource
import Wudup.Library.Decimal
import Wudup.NotificationHistory
import Wudup.ReleaseSecurity

/-! The digest messages for Discord: the row of an item, and the batches that the rows are packed into. -/
namespace Wudup
open Library

/-- A notification item, with the texts that its row is written from. -/
structure DiscordItem where
  image : Str
  serviceKey : Str := []
  imageRepo : Str := []
  currentVersion : Str := []
  targetVersion : Str := []
  category : NotificationCategory := .needsReview
  reasonLabel : Str := []
  links : List Advisory.ReleaseNoteLink := []
  notificationKey : Str := []
  notificationStatus : NotificationStatus := .new
  notificationLastSentAt : Option ℕ := none
  notificationSendCount : ℕ := 0
  skippedReason : Str := []
  deriving DecidableEq, Repr

/-! Rows -/

def discordDigestRowLimit : ℕ := 1500
def discordDigestSubjectLimit : ℕ := 160
def discordDigestVersionLimit : ℕ := 128
def discordDigestReasonLimit : ℕ := 160

def discordInline (value : Str) : Str :=
  strip ((value.map fun c => if c = '\x60' then '\x27' else c).map fun c => if c = '\n' then ' ' else c)

def discordCode (value : Str) : Str := '\x60' :: discordInline value ++ ['\x60']

def discordLink (label url : Str) : Str :=
  let safeLabel := ((if label = [] then "Release link".toList else label).filter (· ≠ '[')).filter (· ≠ ']')
  let safeUrl := url.flatMap fun c => if c = ')' then "%29".toList else [c]
  '[' :: safeLabel ++ "](".toList ++ safeUrl ++ [')']

section
variable (rules : CaseRules)

/-- What a link is called in a row; a link without a name here is left out. -/
def compactDigestLinkLabel (link : Advisory.ReleaseNoteLink) : Str :=
  let kind := rules.lower link.kind
  let label := rules.lower link.label
  if containsText "advisory".toList kind || containsText "ghsa".toList label || containsText "cve".toList label then
    link.label
  else if containsText "changelog".toList kind || containsText "changelog".toList label then "changelog".toList
  else if kind = "lsio_release".toList || containsText "lsio release".toList label then "LSIO release".toList
  else if containsText "upstream".toList kind || containsText "upstream".toList label then "upstream".toList
  else if containsText "release".toList kind || containsText "release".toList label then "release".toList
  else if containsText "project".toList kind || containsText "project".toList label then "project".toList
  else []

/-- The links that were not seen before, under their names. -/
def digestLinksFrom (seen : List (Str × Str)) : List Advisory.ReleaseNoteLink → List Str
  | [] => []
  | link :: rest =>
    let compactLabel := compactDigestLinkLabel rules link
    let key := (compactLabel,link.url)
    if compactLabel = [] || link.url = [] || seen.contains key then digestLinksFrom seen rest
    else discordLink compactLabel link.url :: digestLinksFrom (key :: seen) rest

/-- The links with a name and an address, each pair of them once. -/
def digestLinks (links : List Advisory.ReleaseNoteLink) : List Str := digestLinksFrom rules [] links

def rowBullet : Str := "• ".toList
def rowArrow : Str := " → ".toList
def rowDash : Str := " — ".toList

def rowWithLinks (row : Str) (links : List Str) : Str := row ++ rowDash ++ " | ".toList.intercalate links

/-- The links that fit, up to the first one that does not. -/
def fittingLinks (row : Str) (selected : List Str) : List Str → List Str
  | [] => selected
  | link :: rest =>
    if (rowWithLinks row (selected ++ [link])).length > discordDigestRowLimit then selected
    else fittingLinks row (selected ++ [link]) rest

namespace DiscordItem
variable (item : DiscordItem)

def subject : Str :=
  if item.serviceKey ≠ [] then item.serviceKey
  else lastSegment (imageRepoRef (if item.imageRepo ≠ [] then item.imageRepo else item.image))

/-- The row without its links. -/
def plainRow : Str :=
  rowBullet ++ (discordInline item.subject).take discordDigestSubjectLimit ++ [' '] ++
    discordCode (item.currentVersion.take discordDigestVersionLimit) ++ rowArrow ++
    discordCode (item.targetVersion.take discordDigestVersionLimit) ++ rowDash ++
    item.reasonLabel.take discordDigestReasonLimit

def digestRow : Str :=
  let selectedLinks := fittingLinks item.plainRow [] (digestLinks rules item.links)
  if selectedLinks ≠ [] then rowWithLinks item.plainRow selectedLinks else item.plainRow

/-- What the history of notifications sees of an item. -/
def notice : ReleaseNotificationItem :=
  { notificationKey := item.notificationKey
    category := item.category
    digestRow := item.digestRow rules
    notificationStatus := item.notificationStatus
    notificationLastSentAt := item.notificationLastSentAt
    notificationSendCount := item.notificationSendCount
    skippedReason := item.skippedReason }

end DiscordItem

/-! Batches -/

def discordWebhookUsername : Str := "WUDup Release Notes".toList
def discordSuppressEmbedsFlag : ℕ := 1 <<< 2

/-- A message as it is posted; nobody is mentioned in it. -/
structure DigestPayload where
  username : Str := discordWebhookUsername
  parse : List Str := []
  flags : ℕ := discordSuppressEmbedsFlag
  content : Str
  deriving DecidableEq, Repr

structure DigestBatch where
  index : ℕ
  count : ℕ
  items : List DiscordItem
  payload : DigestPayload
  deriving DecidableEq, Repr

/-- The batches that are finished, and the one that is being packed. -/
structure DigestPacking where
  batches : List DigestBatch := []
  lines : List Str := []
  batchItems : List DiscordItem := []
  currentCategory : Option NotificationCategory := none
  deriving DecidableEq, Repr

namespace DigestPacking

def finishBatch (packing : DigestPacking) : List DigestBatch :=
  packing.batches ++ [{
    index := packing.batches.length + 1
    count := packing.batchItems.length
    items := packing.batchItems
    payload := { content := digestContent packing.batchItems.length packing.lines } }]

/-- Whether the item fits is decided on a message whose header counts all items. -/
def add (total : ℕ) (category : NotificationCategory) (categoryLabel : Str) (packing : DigestPacking)
    (item : DiscordItem) : DigestPacking :=
  let row := item.digestRow rules
  let candidateLines := packing.lines ++
    digestCategoryPrefix packing.lines packing.currentCategory category categoryLabel ++ [row]
  if packing.batchItems ≠ [] ∧ (digestContent total candidateLines).length > discordMessageContentLimit then
    { batches := packing.finishBatch
      lines := [categoryLabel,row]
      batchItems := [item]
      currentCategory := some category }
  else
    { batches := packing.batches
      lines := candidateLines
      batchItems := packing.batchItems ++ [item]
      currentCategory := some category }

/-- The items of one category, one after the other. -/
def addCategory (items : List DiscordItem) (packing : DigestPacking) (category : NotificationCategory × Str) :
    DigestPacking :=
  (items.filter (·.category = category.1)).foldl (add rules items.length category.1 category.2) packing

end DigestPacking

def discordDigestBatches (items : List DiscordItem) : List DigestBatch :=
  if items = [] then []
  else (discordDigestCategories.foldl (DigestPacking.addCategory rules items) {}).finishBatch

/-- The batches of the items that are not skipped. -/
def discordPayloadBatches (items : List DiscordItem) : List DigestBatch :=
  discordDigestBatches rules (items.filter fun item => item.skippedReason = [])


/-! The length of rows and messages -/

theorem length_discordInline_le (value : Str) : (discordInline value).length ≤ value.length := by
  have h := (stripChars_sublist whitespace
    ((value.map fun c => if c = '\x60' then '\x27' else c).map fun c => if c = '\n' then ' ' else c)).length_le
  simpa [discordInline,strip] using h

theorem length_discordCode_le (value : Str) : (discordCode value).length ≤ value.length + 2 := by
  have h := length_discordInline_le value
  simp only [discordCode,List.cons_append,List.length_cons,List.length_append,List.length_nil]
  omega

theorem fittingLinks_fit {row : Str} {links selected : List Str}
    (h : selected = [] ∨ (rowWithLinks row selected).length ≤ discordDigestRowLimit) :
    fittingLinks row selected links = [] ∨
      (rowWithLinks row (fittingLinks row selected links)).length ≤ discordDigestRowLimit := by
  induction links generalizing selected with
  | nil => exact h
  | cons link rest ih =>
    rw [fittingLinks]
    split
    · exact h
    · rename_i hfits
      exact ih (.inr (Nat.not_lt.mp hfits))

theorem DiscordItem.length_plainRow_le (item : DiscordItem) : item.plainRow.length ≤ discordDigestRowLimit := by
  have hcurrent := length_discordCode_le (item.currentVersion.take discordDigestVersionLimit)
  have htarget := length_discordCode_le (item.targetVersion.take discordDigestVersionLimit)
  have htake (n : ℕ) (value : Str) : (value.take n).length ≤ n := by simp
  have hsubject := htake discordDigestSubjectLimit (discordInline item.subject)
  have hreason := htake discordDigestReasonLimit item.reasonLabel
  have hcut := htake discordDigestVersionLimit item.currentVersion
  have hcut' := htake discordDigestVersionLimit item.targetVersion
  have hbullet : rowBullet.length = 2 := rfl
  have harrow : rowArrow.length = 3 := rfl
  have hdash : rowDash.length = 3 := rfl
  simp only [plainRow,List.length_append,hbullet,harrow,hdash,List.length_singleton]
  unfold discordDigestSubjectLimit at hsubject ⊢
  unfold discordDigestVersionLimit at hcurrent htarget hcut hcut' ⊢
  unfold discordDigestReasonLimit at hreason ⊢
  unfold discordDigestRowLimit
  omega

theorem DiscordItem.length_digestRow_le (item : DiscordItem) :
    (item.digestRow rules).length ≤ discordDigestRowLimit := by
  have hlinks : fittingLinks item.plainRow [] (digestLinks rules item.links) = [] ∨
      (rowWithLinks item.plainRow (fittingLinks item.plainRow [] (digestLinks rules item.links))).length ≤
        discordDigestRowLimit := fittingLinks_fit (.inl rfl)
  rw [digestRow]
  obtain hnone | hfits := hlinks
  · rw [hnone]
    exact item.length_plainRow_le
  · split
    · exact hfits
    · exact item.length_plainRow_le

theorem length_digestHeader (count : ℕ) : (digestHeader count).length = (Nat.toDigits 10 count).length + 30 := by
  have hdigits : (toString count).toList = Nat.toDigits 10 count := by
    rw [Nat.toString_eq_ofList_toDigits,String.toList_ofList]
  have hbefore : "🧾 WUDup batch — ".toList.length = 16 := by decide +kernel
  have hafter : " updates found".toList.length = 14 := rfl
  have hparts (before middle after : Str) :
      (before ++ middle ++ after).length = before.length + middle.length + after.length := by
    rw [List.length_append,List.length_append]
  calc (digestHeader count).length
      = 16 + (Nat.toDigits 10 count).length + 14 := (hparts _ _ _).trans
        (congrArg₂ (· + ·) (congrArg₂ (· + ·) hbefore (congrArg List.length hdigits)) hafter)
    _ = (Nat.toDigits 10 count).length + 30 := by omega

theorem length_digestContent (count : ℕ) (lines : List Str) : (digestContent count lines).length =
    (digestHeader count).length + ("\n".toList.intercalate lines).length + 55 := by
  have hfooter : discordDigestFooter.length = 51 := rfl
  have hbreak : "\n\n".toList = ['\n','\n'] := rfl
  rw [digestContent,hbreak,List.intercalate_cons_cons,List.intercalate_cons_cons,List.intercalate_singleton]
  simp only [List.length_append,List.length_cons,List.length_nil,hfooter]
  omega

/-- A message does not get longer when its header counts fewer items. -/
theorem length_digestContent_mono {m n : ℕ} (h : m ≤ n) (lines : List Str) :
    (digestContent m lines).length ≤ (digestContent n lines).length := by
  have hdigits := length_toDigits_mono h
  rw [length_digestContent,length_digestContent,length_digestHeader,length_digestHeader]
  omega

/-- A message with one row always fits. -/
theorem length_digestContent_single {category : NotificationCategory × Str}
    (hc : category ∈ discordDigestCategories) (item : DiscordItem) :
    (digestContent 1 [category.2,item.digestRow rules]).length ≤ discordMessageContentLimit := by
  have hrow := item.length_digestRow_le rules
  have hlabel : ∀ category ∈ discordDigestCategories, category.2.length ≤ 26 := by decide
  have hlabel := hlabel category hc
  have hbreak : "\n".toList = ['\n'] := rfl
  have hone : (Nat.toDigits 10 1).length = 1 := rfl
  rw [length_digestContent,length_digestHeader,hbreak,List.intercalate_cons_cons,List.intercalate_singleton,hone]
  simp only [List.length_append,List.length_singleton]
  unfold discordDigestRowLimit at hrow
  unfold discordMessageContentLimit
  omega


/-! The sections of a message: the items of one category below its label -/

abbrev DigestSection := (NotificationCategory × Str) × List DiscordItem

def sectionLines (part : DigestSection) : List Str := part.1.2 :: part.2.map (·.digestRow rules)

/-- The sections one below the other, with an empty line between them. -/
def digestLines (parts : List DigestSection) : List Str := [[]].intercalate (parts.map (sectionLines rules))

theorem digestLines_concat (front : List DigestSection) (part : DigestSection) : digestLines rules (front ++ [part]) =
    (if front = [] then [] else digestLines rules front ++ [[]]) ++ sectionLines rules part := by
  rw [digestLines,List.map_append,List.map_singleton]
  by_cases hfront : front = []
  · subst hfront
    simp [List.intercalate]
  · rw [intercalate_append_singleton (by simpa using hfront),if_neg hfront,List.append_assoc]
    rfl

theorem digestLines_eq_nil_iff {parts : List DigestSection} : digestLines rules parts = [] ↔ parts = [] := by
  constructor
  · intro h
    obtain hnil | ⟨front,part,rfl⟩ := List.eq_nil_or_concat' parts
    · exact hnil
    · rw [digestLines_concat] at h
      cases (List.append_eq_nil_iff.mp h).2
  · rintro rfl
    rfl

/-- The items and lines of a message are those of its sections; the sections are in the order of the categories,
none is empty, and each holds items of its own category. -/
structure Sectioned (categories : List (NotificationCategory × Str)) (items : List DiscordItem) (lines : List Str)
    (parts : List DigestSection) : Prop where
  order : (parts.map (·.1)).Sublist categories
  filled : ∀ part ∈ parts, part.2 ≠ [] ∧ ∀ item ∈ part.2, item.category = part.1.1
  items_eq : items = parts.flatMap (·.2)
  lines_eq : lines = digestLines rules parts

section
variable {categories : List (NotificationCategory × Str)} {items : List DiscordItem} {lines : List Str}
  {parts : List DigestSection} {category : NotificationCategory × Str} {item : DiscordItem}

theorem sectioned_nil : Sectioned rules categories [] [] [] := ⟨by simp,by simp,rfl,rfl⟩

theorem sectioned_single (hitem : item.category = category.1) :
    Sectioned rules (categories ++ [category]) [item] [category.2,item.digestRow rules] [(category,[item])] :=
  ⟨by simp,by simp [hitem],rfl,rfl⟩

variable {rules}

theorem Sectioned.mono {more : List (NotificationCategory × Str)} (h : Sectioned rules categories items lines parts)
    (hmore : categories.Sublist more) : Sectioned rules more items lines parts :=
  { h with order := h.order.trans hmore }

theorem Sectioned.parts_eq_nil_iff (h : Sectioned rules categories items lines parts) : parts = [] ↔ items = [] := by
  constructor
  · intro hnil
    rw [h.items_eq,hnil]
    rfl
  · intro hitems
    by_contra hne
    obtain ⟨part,hpart⟩ := List.exists_mem_of_ne_nil parts hne
    have hnone := List.flatMap_eq_nil_iff.mp (h.items_eq.symm.trans hitems) part hpart
    exact (h.filled part hpart).1 hnone

/-- The item goes to the last section when that is the one of its category. -/
theorem Sectioned.same {front : List DigestSection} {rows : List DiscordItem}
    (h : Sectioned rules categories items lines (front ++ [(category,rows)])) (hitem : item.category = category.1) :
    Sectioned rules categories (items ++ [item]) (lines ++ [item.digestRow rules])
      (front ++ [(category,rows ++ [item])]) := by
  refine ⟨by simpa using h.order,fun part hpart => ?_,?_,?_⟩
  · obtain hpart | hpart := List.mem_append.mp hpart
    · exact h.filled part (List.mem_append_left _ hpart)
    · have hlast := h.filled (category,rows) (by simp)
      rw [List.mem_singleton.mp hpart]
      refine ⟨by simp,fun other hother => ?_⟩
      obtain hother | hother := List.mem_append.mp hother
      · exact hlast.2 other hother
      · rwa [List.mem_singleton.mp hother]
  · rw [h.items_eq]
    simp
  · rw [h.lines_eq,digestLines_concat,digestLines_concat,List.append_assoc]
    simp [sectionLines]

/-- Else it starts a section of its own, below an empty line. -/
theorem Sectioned.other (h : Sectioned rules categories items lines parts) (hitem : item.category = category.1) :
    Sectioned rules (categories ++ [category]) (items ++ [item])
      (lines ++ ((if lines = [] then [] else [[]]) ++ [category.2]) ++ [item.digestRow rules])
      (parts ++ [(category,[item])]) := by
  refine ⟨?_,fun part hpart => ?_,?_,?_⟩
  · rw [List.map_append]
    exact h.order.append_right [category]
  · obtain hpart | hpart := List.mem_append.mp hpart
    · exact h.filled part hpart
    · rw [List.mem_singleton.mp hpart]
      exact ⟨by simp,fun other hother => by rwa [List.mem_singleton.mp hother]⟩
  · rw [h.items_eq]
    simp
  · rw [digestLines_concat,h.lines_eq]
    by_cases hparts : parts = []
    · subst hparts
      rfl
    · rw [if_neg hparts,if_neg fun hnil => hparts ((digestLines_eq_nil_iff rules).mp hnil)]
      simp [sectionLines]

/-- Unless the last section is that of the category, none is. -/
theorem Sectioned.before {before : List (NotificationCategory × Str)}
    (h : Sectioned rules (before ++ [category]) items lines parts)
    (hlast : parts.getLast?.map (·.1.1) ≠ some category.1) : Sectioned rules before items lines parts := by
  obtain ⟨front,back,hparts,hfront,hback⟩ := List.sublist_append_iff.mp h.order
  obtain rfl | rfl := List.sublist_singleton.mp hback
  · rw [List.append_nil] at hparts
    exact { h with order := hparts ▸ hfront }
  · exfalso
    apply hlast
    have hcategory : (parts.map (·.1)).getLast? = some category := by rw [hparts,List.getLast?_concat]
    obtain ⟨part,hpart,rfl⟩ := Option.map_eq_some_iff.mp (List.getLast?_map.symm.trans hcategory)
    rw [hpart]
    rfl

end

/-! The packing loop -/

/-- A batch as it should be posted. -/
structure DigestBatch.Complete (batch : DigestBatch) : Prop where
  items_ne : batch.items ≠ []
  count_eq : batch.count = batch.items.length
  message : ∃ lines parts, batch.payload.content = digestContent batch.items.length lines ∧
    Sectioned rules discordDigestCategories batch.items lines parts
  fits : batch.payload.content.length ≤ discordMessageContentLimit

/-- After some items of the given categories: the batches hold them in order, the finished ones are complete, and
the one that is being packed would be. -/
structure DigestPacking.Packed (categories : List (NotificationCategory × Str)) (taken : List DiscordItem)
    (packing : DigestPacking) : Prop where
  taken_eq : packing.batches.flatMap (·.items) ++ packing.batchItems = taken
  idle : packing.batchItems = [] → taken = []
  finished : ∀ batch ∈ packing.batches, batch.Complete rules
  sections : ∃ parts, Sectioned rules categories packing.batchItems packing.lines parts ∧
    packing.currentCategory = parts.getLast?.map (·.1.1)
  fits : packing.batchItems ≠ [] →
    (digestContent packing.batchItems.length packing.lines).length ≤ discordMessageContentLimit

namespace DigestPacking
section
variable {categories before : List (NotificationCategory × Str)} {category : NotificationCategory × Str}
  {taken items : List DiscordItem} {item : DiscordItem} {packing : DigestPacking} {total : ℕ}

theorem packed_start : Packed rules categories [] {} :=
  ⟨rfl,by simp,by simp,⟨[],sectioned_nil rules,rfl⟩,by simp⟩

variable {rules}

theorem Packed.mono {more : List (NotificationCategory × Str)} (h : packing.Packed rules categories taken)
    (hmore : categories.Sublist more) : packing.Packed rules more taken := by
  obtain ⟨parts,hparts,hcurrent⟩ := h.sections
  exact { h with sections := ⟨parts,hparts.mono hmore,hcurrent⟩ }

theorem Packed.finishBatch (h : packing.Packed rules categories taken)
    (hcategories : categories.Sublist discordDigestCategories) (hne : packing.batchItems ≠ []) :
    packing.finishBatch.flatMap (·.items) = taken ∧ ∀ batch ∈ packing.finishBatch, batch.Complete rules := by
  refine ⟨?_,fun batch hbatch => ?_⟩
  · rw [← h.taken_eq,DigestPacking.finishBatch]
    simp
  · obtain hbatch | hbatch := List.mem_append.mp hbatch
    · exact h.finished batch hbatch
    · obtain ⟨parts,hparts,-⟩ := h.sections
      rw [List.mem_singleton.mp hbatch]
      exact ⟨hne,rfl,⟨_,parts,rfl,hparts.mono hcategories⟩,h.fits hne⟩

/-- The lines with the next row are those of the items with the next one. -/
theorem sectioned_candidate (h : packing.Packed rules (before ++ [category]) taken)
    (hitem : item.category = category.1) : ∃ parts, Sectioned rules (before ++ [category])
      (packing.batchItems ++ [item])
      (packing.lines ++ digestCategoryPrefix packing.lines packing.currentCategory category.1 category.2 ++
        [item.digestRow rules]) parts ∧ parts.getLast?.map (·.1.1) = some category.1 := by
  obtain ⟨parts,hparts,hcurrent⟩ := h.sections
  rw [hcurrent,digestCategoryPrefix]
  split
  · rename_i hlast
    obtain ⟨⟨last,rows⟩,hpart,hcategory⟩ := Option.map_eq_some_iff.mp hlast
    obtain ⟨front,rfl⟩ := List.getLast?_eq_some_iff.mp hpart
    rw [List.append_nil]
    refine ⟨_,hparts.same (hitem.trans hcategory.symm),?_⟩
    rw [List.getLast?_concat]
    exact congrArg some hcategory
  · rename_i hlast
    refine ⟨_,(hparts.before hlast).other hitem,?_⟩
    rw [List.getLast?_concat]
    rfl

/-- In an empty batch the next row stands alone. -/
theorem candidate_of_empty (h : packing.Packed rules categories taken) (hempty : packing.batchItems = []) :
    packing.lines ++ digestCategoryPrefix packing.lines packing.currentCategory category.1 category.2 ++
      [item.digestRow rules] = [category.2,item.digestRow rules] := by
  obtain ⟨parts,hparts,hcurrent⟩ := h.sections
  obtain rfl := hparts.parts_eq_nil_iff.mpr hempty
  rw [hcurrent,hparts.lines_eq]
  rfl

/-- The step of the loop. -/
theorem Packed.add (h : packing.Packed rules (before ++ [category]) taken)
    (hcategories : (before ++ [category]).Sublist discordDigestCategories) (hitem : item.category = category.1)
    (htotal : taken.length < total) :
    (packing.add rules total category.1 category.2 item).Packed rules (before ++ [category]) (taken ++ [item]) := by
  have hcategory : category ∈ discordDigestCategories := hcategories.subset (by simp)
  unfold DigestPacking.add
  dsimp only
  split
  · rename_i hover
    obtain ⟨htaken,hcomplete⟩ := h.finishBatch hcategories hover.1
    exact ⟨by rw [htaken],by simp,hcomplete,⟨_,sectioned_single rules hitem,rfl⟩,
      fun _ => length_digestContent_single rules hcategory item⟩
  · rename_i hfits
    obtain ⟨parts,hparts,hlast⟩ := sectioned_candidate h hitem
    refine ⟨by rw [← List.append_assoc,h.taken_eq],by simp,h.finished,⟨parts,hparts,hlast.symm⟩,fun _ => ?_⟩
    by_cases hempty : packing.batchItems = []
    · rw [candidate_of_empty h hempty,hempty]
      exact length_digestContent_single rules hcategory item
    · have hshort : packing.batchItems.length ≤ taken.length := by
        rw [← h.taken_eq,List.length_append]
        omega
      refine le_trans (length_digestContent_mono ?_ _) (Nat.not_lt.mp fun hlong => hfits ⟨hempty,hlong⟩)
      rw [List.length_append,List.length_singleton]
      omega

/-- The loop over the items of a category. -/
theorem Packed.foldl (h : packing.Packed rules (before ++ [category]) taken)
    (hcategories : (before ++ [category]).Sublist discordDigestCategories)
    (hitems : ∀ item ∈ items, item.category = category.1) (htotal : taken.length + items.length ≤ total) :
    (items.foldl (DigestPacking.add rules total category.1 category.2) packing).Packed rules (before ++ [category])
      (taken ++ items) := by
  induction items generalizing packing taken with
  | nil => simpa using h
  | cons item rest ih =>
    rw [List.length_cons] at htotal
    have hadd := h.add hcategories (hitems item (by simp)) (by omega : taken.length < total)
    rw [List.foldl_cons,List.append_cons taken]
    refine ih hadd (fun other hother => hitems other (List.mem_cons_of_mem _ hother)) ?_
    rw [List.length_append,List.length_singleton]
    omega

/-- The loop over the categories. -/
theorem Packed.addCategories {rest : List (NotificationCategory × Str)} (h : packing.Packed rules before taken)
    (hcategories : (before ++ rest).Sublist discordDigestCategories)
    (htotal : taken.length + (rest.flatMap fun category => items.filter (·.category = category.1)).length ≤
      items.length) :
    (rest.foldl (DigestPacking.addCategory rules items) packing).Packed rules (before ++ rest)
      (taken ++ rest.flatMap fun category => items.filter (·.category = category.1)) := by
  induction rest generalizing packing taken before with
  | nil => simpa using h
  | cons category rest ih =>
    rw [List.append_cons] at hcategories
    rw [List.flatMap_cons,List.length_append] at htotal
    have hstart : (before ++ [category]).Sublist discordDigestCategories :=
      (List.sublist_append_left _ rest).trans hcategories
    have hitems : ∀ item ∈ items.filter (·.category = category.1), item.category = category.1 :=
      fun item hitem => by simpa using (List.mem_filter.mp hitem).2
    have hstep : (packing.addCategory rules items category).Packed rules (before ++ [category])
        (taken ++ items.filter (·.category = category.1)) :=
      (h.mono (List.sublist_append_left before [category])).foldl hstart hitems (by omega)
    rw [List.foldl_cons,List.append_cons before,List.flatMap_cons,← List.append_assoc]
    refine ih hstep hcategories ?_
    rw [List.length_append]
    omega

end
end DigestPacking

/-- The items of distinct categories are at most all items. -/
theorem length_flatMap_category_le {categories : List (NotificationCategory × Str)}
    (hn : (categories.map (·.1)).Nodup) (items : List DiscordItem) :
    (categories.flatMap fun category => items.filter (·.category = category.1)).length ≤ items.length := by
  induction categories generalizing items with
  | nil => simp
  | cons category rest ih =>
    obtain ⟨hnew,hrest⟩ := List.nodup_cons.mp hn
    have hothers : (rest.flatMap fun other => items.filter (·.category = other.1)) =
        rest.flatMap fun other => (items.filter (·.category ≠ category.1)).filter (·.category = other.1) := by
      apply List.flatMap_congr
      intro other hother
      rw [List.filter_filter]
      apply List.filter_congr
      intro item _
      by_cases hitem : item.category = other.1
      · have hne : other.1 ≠ category.1 := fun he => hnew (List.mem_map.mpr ⟨other,hother,he⟩)
        simp [hitem,hne]
      · simp [hitem]
    have hle := ih hrest (items.filter (·.category ≠ category.1))
    have hsplit := List.length_eq_length_filter_add (l := items) fun item => decide (item.category = category.1)
    rw [List.flatMap_cons,List.length_append,hothers]
    simp only [decide_not] at hle ⊢
    omega

variable {rules}

theorem packed_all (items : List DiscordItem) :
    (discordDigestCategories.foldl (DigestPacking.addCategory rules items) {}).Packed rules discordDigestCategories
      (discordDigestCategories.flatMap fun category => items.filter (·.category = category.1)) := by
  have hlength : (discordDigestCategories.flatMap fun category =>
      items.filter (·.category = category.1)).length ≤ items.length := length_flatMap_category_le (by decide) items
  have hstart : ({} : DigestPacking).Packed rules [] [] := DigestPacking.packed_start rules
  exact hstart.addCategories (List.Sublist.refl _) (by rwa [List.length_nil,Nat.zero_add])

theorem discordDigestBatches_complete (items : List DiscordItem) :
    (discordDigestBatches rules items).flatMap (·.items) =
        (discordDigestCategories.flatMap fun category => items.filter (·.category = category.1)) ∧
      ∀ batch ∈ discordDigestBatches rules items, batch.Complete rules := by
  rw [discordDigestBatches]
  split
  · rename_i hitems
    subst hitems
    exact ⟨rfl,by simp⟩
  · rename_i hitems
    have hpacked := @packed_all rules items
    refine hpacked.finishBatch (List.Sublist.refl _) fun hempty => ?_
    obtain ⟨item,hitem⟩ := List.exists_mem_of_ne_nil items hitems
    have hlisted : ∃ category ∈ discordDigestCategories, category.1 = item.category := by
      cases item.category <;> decide
    obtain ⟨category,hcategory,hof⟩ := hlisted
    have hnone := List.flatMap_eq_nil_iff.mp (hpacked.idle hempty) category hcategory
    exact List.not_mem_nil (hnone ▸ List.mem_filter.mpr ⟨hitem,by simpa using hof.symm⟩)

/-- Every item that is not skipped is in one batch, in the order of the categories and of the list; the batches are
complete messages. -/
theorem digest_batches_complete (items : List DiscordItem) :
    (discordPayloadBatches rules items).flatMap (·.items) =
        (discordDigestCategories.flatMap fun category =>
          items.filter fun item => item.skippedReason = [] ∧ item.category = category.1) ∧
      ∀ batch ∈ discordPayloadBatches rules items, batch.Complete rules := by
  obtain ⟨hitems,hcomplete⟩ := @discordDigestBatches_complete rules (items.filter fun item => item.skippedReason = [])
  refine ⟨hitems.trans ?_,hcomplete⟩
  apply List.flatMap_congr
  intro category _
  rw [List.filter_filter]
  apply List.filter_congr
  intro item _
  simp [and_comm]

/-! The batches of the notification history are these, without their messages -/

namespace DigestPacking

/-- What the history of notifications sees of the packing. -/
def draft (rules : CaseRules) (packing : DigestPacking) : DigestDraft :=
  { batches := packing.batches.map fun batch => batch.items.map (·.notice rules)
    lines := packing.lines
    batchItems := packing.batchItems.map (·.notice rules)
    currentCategory := packing.currentCategory }

theorem draft_add (total : ℕ) (category : NotificationCategory) (categoryLabel : Str) (packing : DigestPacking)
    (item : DiscordItem) : (packing.add rules total category categoryLabel item).draft rules =
      (packing.draft rules).add total category categoryLabel (item.notice rules) := by
  have hbusy : (packing.draft rules).batchItems ≠ [] ↔ packing.batchItems ≠ [] := by simp [draft]
  unfold DigestPacking.add DigestDraft.add
  dsimp only
  by_cases hover : packing.batchItems ≠ [] ∧ discordMessageContentLimit < (digestContent total (packing.lines ++
      digestCategoryPrefix packing.lines packing.currentCategory category categoryLabel ++
        [item.digestRow rules])).length
  · rw [if_pos hover,if_pos ⟨hbusy.mpr hover.1,hover.2⟩,draft,finishBatch,List.map_append]
    rfl
  · rw [if_neg hover,if_neg fun h => hover ⟨hbusy.mp h.1,h.2⟩,draft,List.map_append]
    rfl

theorem draft_addCategory (items : List DiscordItem) (packing : DigestPacking) (category : NotificationCategory × Str) :
    (packing.addCategory rules items category).draft rules =
      (packing.draft rules).addCategory (items.map (·.notice rules)) category := by
  have hfold (xs : List DiscordItem) (total : ℕ) (packing : DigestPacking) :
      (xs.foldl (add rules total category.1 category.2) packing).draft rules =
        (xs.map (·.notice rules)).foldl (fun draft item => draft.add total category.1 category.2 item)
          (packing.draft rules) := by
    induction xs generalizing packing with
    | nil => rfl
    | cons item rest ih => rw [List.foldl_cons,ih,draft_add,List.map_cons,List.foldl_cons]
  rw [addCategory,DigestDraft.addCategory,hfold,List.length_map,List.filter_map]
  rfl

theorem draft_finishBatch (packing : DigestPacking) :
    packing.finishBatch.map (fun batch => batch.items.map (·.notice rules)) =
      (packing.draft rules).batches ++ [(packing.draft rules).batchItems] := by
  simp [finishBatch,draft]

end DigestPacking

theorem notices_discordPayloadBatches (items : List DiscordItem) :
    (discordPayloadBatches rules items).map (fun batch => batch.items.map (·.notice rules)) =
      payloadBatches (items.map (·.notice rules)) .digest := by
  have hfold (categories : List (NotificationCategory × Str)) (items : List DiscordItem) (packing : DigestPacking) :
      (categories.foldl (DigestPacking.addCategory rules items) packing).draft rules =
        categories.foldl (DigestDraft.addCategory (items.map (·.notice rules))) (packing.draft rules) := by
    induction categories generalizing packing with
    | nil => rfl
    | cons category rest ih => rw [List.foldl_cons,ih,DigestPacking.draft_addCategory,List.foldl_cons]
  have hsendable : (items.map (·.notice rules)).filter (·.sendable) =
      (items.filter fun item => item.skippedReason = []).map (·.notice rules) := by
    rw [List.filter_map]
    rfl
  rw [discordPayloadBatches,discordDigestBatches,payloadBatches,hsendable,digestPayloadBatches]
  dsimp only
  split
  · rename_i h
    rw [h]
    rfl
  · rename_i h
    rw [if_neg (by simpa using h),DigestPacking.draft_finishBatch,hfold]
    rfl

end
end Wudup

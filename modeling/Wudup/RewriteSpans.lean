import Wudup.FlowBounds
import Wudup.Library.Splice
import Wudup.ServiceLabels
import Wudup.SourceLines

/-! The spans that the rewrites of images and labels replace, and where they lie. -/
namespace Wudup
open Library

def SpanRewrite.edit (rewrite : SpanRewrite) : Edit Char := ⟨rewrite.start,rewrite.stop,rewrite.replacement⟩

theorem afterQuoted_suffix {key body rest : Str} (h : afterQuoted key body = some rest) : rest <:+ body := by
  cases body with
  | nil => simp [afterQuoted] at h
  | cons c body =>
    rw [afterQuoted] at h
    split_ifs at h
    cases hdrop : body.drop key.length with
    | nil => simp [hdrop] at h
    | cons d behind =>
      simp only [hdrop] at h
      split_ifs at h
      obtain rfl := Option.some.inj h
      have hsuffix : d :: behind <:+ body := hdrop ▸ List.drop_suffix key.length body
      exact (List.suffix_cons d behind).trans (hsuffix.trans (List.suffix_cons c body))

/-- The value of a key is what stands behind its colon. -/
theorem afterYamlKey_spec {key body value : Str} {read : ℕ} (h : afterYamlKey key body = some (read,value)) :
    ∃ front, body = front ++ ':' :: value ∧ read = front.length + 1 := by
  unfold afterYamlKey at h
  obtain ⟨rest,hrest,hvalue⟩ := Option.bind_eq_some_iff.mp h
  obtain ⟨behind,hbehind,rfl⟩ := Option.map_eq_some_iff.mp hrest
  have hindented : behind <:+ body.dropWhile isBlank := by
    obtain hquoted | ⟨_,hplain⟩ := Option.or_eq_some_iff.mp hbehind
    · exact afterQuoted_suffix hquoted
    · split_ifs at hplain
      obtain rfl := Option.some.inj hplain
      exact List.drop_suffix _ _
  have hsuffix : behind.dropWhile isBlank <:+ body :=
    (List.dropWhile_suffix isBlank).trans (hindented.trans (List.dropWhile_suffix isBlank))
  cases hdrop : behind.dropWhile isBlank with
  | nil => simp [hdrop] at hvalue
  | cons c rest =>
    rw [hdrop] at hvalue hsuffix
    obtain ⟨front,hfront⟩ := hsuffix
    split at hvalue
    · next c' value' hcons =>
      obtain ⟨rfl,rfl⟩ := List.cons.inj hcons
      obtain ⟨hread,rfl⟩ := Prod.mk.inj (Option.some.inj hvalue)
      refine ⟨front,hfront.symm,?_⟩
      rw [← hread,← hfront]
      simp only [List.length_append,List.length_cons]
      omega
    · cases hvalue

/-- A value on its line stands behind blanks and perhaps a quote. -/
theorem scalarOffset_spec {value rest : Str} {offset : ℕ} (h : scalarOffset value rest = some offset) :
    ∃ front tail, rest = front ++ (value ++ tail) ∧ front.length = offset := by
  unfold scalarOffset at h
  obtain ⟨blanks,hblanks,h⟩ := List.exists_of_findSome?_eq_some h
  obtain ⟨quote,_,h⟩ := List.exists_of_findSome?_eq_some h
  have hle : blanks ≤ rest.length := by
    have hrange := List.mem_range.mp (List.mem_reverse.mp hblanks)
    have htake := (List.takeWhile_prefix isBlank (l := rest)).length_le
    omega
  split_ifs at h with hvalue
  obtain rfl := Option.some.inj h
  obtain ⟨tail,htail⟩ := List.isPrefixOf_iff_prefix.mp (Bool.and_eq_true_iff.mp hvalue).1
  refine ⟨rest.take blanks ++ quote,quote ++ tail,?_,?_⟩
  · conv_lhs => rw [← List.take_append_drop blanks rest,← htail]
    simp
  · rw [List.length_append,List.length_take_of_le hle]

/-- A line with nothing but an image behind its key. -/
def ImageLine (image body : Str) : Prop :=
  ∃ read value offset, afterYamlKey "image".toList body = some (read,value) ∧ scalarOffset image value = some offset

def ImageKeyLine (body : Str) : Prop :=
  ∃ read value, afterYamlKey "image".toList body = some (read,value) ∧ value.all isBlank = true

/-- A line with nothing but an image, indented. -/
def ImageValueLine (image body : Str) : Prop :=
  ∃ blanks tail, body = blanks ++ (image ++ tail) ∧ (blanks ++ tail).all isBlank = true

/-- The rewrite of an image on one line, and of one on the line after its key. -/
inductive ImageSpan (source image : Str) (field : ImageField) (rewrite : SpanRewrite) : Prop
  | oneLine {location : Location} {line : SourceLine} {front tail : Str} :
    field.location = some location → sourceLine source location.line = some line → ImageLine image line.body →
      line.body = front ++ (image ++ tail) → front ≠ [] → rewrite.start = line.start + front.length →
      rewrite.stop = line.start + (front.length + image.length) → rewrite.replacement = [] →
      ImageSpan source image field rewrite
  | twoLines {location keyLocation : Location} {keyLine line : SourceLine} {blanks tail : Str} :
    field.location = some location → field.keyLocation = some keyLocation →
      location.line = keyLocation.line + 1 → sourceLine source keyLocation.line = some keyLine →
      sourceLine source location.line = some line → ImageKeyLine keyLine.body → ImageValueLine image line.body →
      lineIndentWidth keyLine.body < blanks.length → blanks.all isBlank = true →
      line.body = blanks ++ (image ++ tail) → rewrite.start = keyLine.start + keyLine.body.length →
      rewrite.stop = line.start + (blanks.length + image.length) →
      rewrite.replacement ∈ [[],[' ']] → ImageSpan source image field rewrite

theorem multiline_spec {source image : Str} {keyLineNo valueLineNo : ℕ} {rewrite : SpanRewrite}
    (h : multilinePlainImageScalarRewrite source keyLineNo valueLineNo image = some rewrite) :
    ∃ keyLine line blanks tail, valueLineNo = keyLineNo + 1 ∧ sourceLine source keyLineNo = some keyLine ∧
      sourceLine source valueLineNo = some line ∧ ImageKeyLine keyLine.body ∧
      lineIndentWidth keyLine.body < blanks.length ∧ blanks.all isBlank = true ∧ tail.all isBlank = true ∧
      line.body = blanks ++ (image ++ tail) ∧ rewrite.start = keyLine.start + keyLine.body.length ∧
      rewrite.stop = line.start + (blanks.length + image.length) ∧ rewrite.replacement ∈ [[],[' ']] := by
  unfold multilinePlainImageScalarRewrite at h
  simp only [Option.bind_eq_bind] at h
  obtain ⟨keyLine,hkey,h⟩ := Option.bind_eq_some_iff.mp h
  by_cases hnext : valueLineNo ≠ keyLineNo + 1
  · rw [if_pos hnext] at h
    cases h
  rw [if_neg hnext] at h
  obtain ⟨⟨read,trailing⟩,hread,h⟩ := Option.bind_eq_some_iff.mp h
  simp only at h
  by_cases htrailing : (!trailing.all isBlank) = true
  · rw [if_pos htrailing] at h
    cases h
  rw [if_neg htrailing] at h
  obtain ⟨line,hline,h⟩ := Option.bind_eq_some_iff.mp h
  obtain ⟨offset,hoffset,h⟩ := Option.bind_eq_some_iff.mp h
  by_cases hindent : offset ≤ lineIndentWidth keyLine.body
  · rw [if_pos hindent] at h
    cases h
  rw [if_neg hindent] at h
  obtain ⟨joined,hjoined⟩ : ∃ joined, joined = if trailing = [] then [' '] else [] := ⟨_,rfl⟩
  rw [← hjoined] at h
  have hrewrite : rewrite = ⟨keyLine.start + keyLine.body.length,line.start + offset + image.length,joined⟩ := by
    cases hbehind : sourceLine source (valueLineNo + 1) with
    | none =>
      rw [hbehind] at h
      exact (Option.some.inj h).symm
    | some behind =>
      rw [hbehind] at h
      simp only at h
      split_ifs at h
      · cases h
      · exact (Option.some.inj h).symm
  have hmem := List.mem_range.mp (List.mem_reverse.mp (List.mem_of_find?_eq_some hoffset))
  have hfound := List.find?_some hoffset
  simp only [Bool.and_eq_true,List.isPrefixOf_iff_prefix] at hfound
  obtain ⟨⟨_,tail,htail⟩,hblank⟩ := hfound
  have hle : offset ≤ (line.body.takeWhile isBlank).length := Nat.le_of_lt_succ hmem
  have hspelled := List.takeWhile_prefix isBlank (l := line.body)
  have hblanks : line.body.take offset = (line.body.takeWhile isBlank).take offset := by
    obtain ⟨behind,hbehind⟩ := hspelled
    conv_lhs => rw [← hbehind]
    exact List.take_append_of_le_length hle
  have hlength : (line.body.take offset).length = offset :=
    List.length_take_of_le (hle.trans hspelled.length_le)
  have htailBlank : tail.all isBlank = true := by
    rw [← List.drop_drop,← htail,List.drop_left] at hblank
    exact hblank
  refine ⟨keyLine,line,line.body.take offset,tail,not_not.mp hnext,hkey,hline,?_,?_,?_,htailBlank,?_,?_,?_,?_⟩
  · exact ⟨read,trailing,hread,by simpa using htrailing⟩
  · rw [hlength]
    exact Nat.lt_of_not_le hindent
  · rw [hblanks,List.all_eq_true]
    exact fun c hc => List.mem_takeWhile_imp (List.mem_of_mem_take hc)
  · rw [htail,List.take_append_drop]
  · rw [hrewrite]
  · rw [hrewrite,hlength]
    exact Nat.add_assoc ..
  · rw [hrewrite,hjoined]
    split_ifs <;> simp

/-- The image that a service's own text declares, and where its rewrite stands. -/
theorem serviceImageScalarRewrite_spec {document : ComposeDocument} {service image : Str} {rewrite : SpanRewrite}
    (h : serviceImageScalarRewrite document service image = .ok rewrite) :
    ∃ config field, document.config service = some config ∧ config.image = some field ∧
      field.value = .text image ∧ ImageSpan document.source image field rewrite := by
  unfold serviceImageScalarRewrite at h
  obtain ⟨config,hconfig,h⟩ := bind_eq_ok.mp h
  refine ⟨config,?_⟩
  split at h
  · next direct value node location keyLocation hfield =>
    dsimp only at h
    split at h
    · exact absurd h (refuse_bind _ _ _)
    split at h
    · exact absurd h (refuse_bind _ _ _)
    next hvalue =>
    obtain rfl := not_not.mp hvalue
    refine ⟨_,config_of_directServiceConfig hconfig,hfield,rfl,?_⟩
    split at h
    · exact absurd h (refuse_ne_ok _ _)
    next location =>
    split at h
    · exact absurd h (refuse_ne_ok _ _)
    next line hline =>
    split at h
    · next start hstart =>
      cases h
      obtain ⟨⟨read,rest⟩,hread,hmap⟩ := Option.bind_eq_some_iff.mp hstart
      obtain ⟨offset,hoffset,rfl⟩ := Option.map_eq_some_iff.mp hmap
      obtain ⟨front,hbody,hlength⟩ := afterYamlKey_spec hread
      obtain ⟨blanks,tail,hrest,hblanks⟩ := scalarOffset_spec hoffset
      have htext : line.body = (front ++ ':' :: blanks) ++ (value ++ tail) := by
        simp only at hrest
        rw [hbody,hrest]
        simp
      refine .oneLine rfl hline ⟨read,rest,offset,hread,hoffset⟩ htext (by simp) ?_ ?_ rfl
      · simp only [List.length_append,List.length_cons]
        omega
      · simp only [List.length_append,List.length_cons]
        omega
    · split at h
      · exact absurd h (refuse_ne_ok _ _)
      next keyLocation =>
      split at h
      · next found hfound =>
        cases h
        obtain ⟨keyLine,line',blanks,tail,hnext,hkey,hline',hkeyLine,hindent,hblanks,htail,hbody,hstart,hstop,hjoin⟩ :=
          multiline_spec hfound
        obtain rfl := Option.some.inj (hline.symm.trans hline')
        exact .twoLines rfl rfl hnext hkey hline hkeyLine ⟨blanks,tail,hbody,by simp [hblanks,htail]⟩ hindent hblanks
          hbody hstart hstop hjoin
      · exact absurd h (refuse_ne_ok _ _)
  · exact absurd h (refuse_ne_ok _ _)

/-- The offset behind a line and its line break. -/
def SourceLine.next (line : SourceLine) (source : Str) : ℕ :=
  if line.stop < source.length then line.stop + 1 else line.stop

/-- The positions of the labels that are text. -/
def LabelCollection.texts : LabelCollection → List (Location × Str)
  | .mapping entries => entries.filterMap fun entry =>
    match entry.direct,entry.location,entry.value with
    | true,some location,.text value => some (location,value)
    | _,_,_ => none
  | .sequence items => items.filterMap fun item => item.location.bind fun location =>
    item.text.map fun value => (location,value)
  | _ => []

/-- The ways in which the value of a label may be written on its line. -/
def scalarSpellings (value : Str) : List Str :=
  [value,'\'' :: doubled '\'' value ++ ['\''],
    '"' :: (value.flatMap fun c => if c = '\\' || c = '"' then ['\\',c] else [c]) ++ ['"']]

/-- Labels other than none, at a place in the source. -/
def LabelsField.Located (labels : LabelsField) : Prop := labels.value ≠ .null ∧ labels.location.isSome = true

/-- A line with labels that are declared empty. -/
def EmptyLabelsLine (body : Str) : Prop := ∃ read rest, afterYamlKey "labels".toList body = some (read,rest) ∧
  (afterNull (rest.dropWhile isBlank) = [] ∨ (afterNull (rest.dropWhile isBlank)).head? = some '#')

/-- The rewrites that set a label: behind the image of a service without labels, in place of the empty labels,
of the label's value, behind a block of labels, or in a flow collection that lacks the label. -/
inductive LabelSpan (source : Str) (config : ServiceConfig) (key : Str) (rewrite : SpanRewrite) : Prop
  | behindImage {field : ImageField} {location : Location} {line : SourceLine} :
    config.image = some field → field.location = some location → sourceLine source location.line = some line →
      rewrite.start = line.next source → rewrite.stop = rewrite.start → LabelSpan source config key rewrite
  | empty {labels : LabelsField} {location : Location} {line : SourceLine} :
    config.labels = some labels → labels.direct = true → labels.value = .null →
      labels.keyLocation = some location → sourceLine source location.line = some line →
      EmptyLabelsLine line.body → line.start ≤ rewrite.start → rewrite.start ≤ rewrite.stop →
      rewrite.stop = line.start + line.body.length → LabelSpan source config key rewrite
  | value {labels : LabelsField} {location : Location} {line : SourceLine} {current token : Str} :
    config.labels = some labels → labels.Located → (location,current) ∈ labels.value.texts →
      sourceLine source location.line = some line → location.col < line.body.length →
      token ∈ scalarSpellings current → token <+: line.body.drop location.col →
      rewrite.start = line.start + location.col → rewrite.stop = rewrite.start + token.length →
      LabelSpan source config key rewrite
  | block {labels : LabelsField} {location : Location} :
    config.labels = some labels → labels.Located → labels.keyLocation = some location →
      rewrite.start = yamlBlockEndOffset source location → rewrite.stop = rewrite.start →
      LabelSpan source config key rewrite
  | flow {labels : LabelsField} {start stop last : ℕ} :
    config.labels = some labels → labels.Located → serviceLabelPresent config key = .ok false →
      serviceLabelsFlowStart labels source = .ok (some start) →
      flowCollectionBounds source start = .ok (stop,last) →
      rewrite.start = last + 1 ∨ (start < stop → start ≤ rewrite.start ∧ rewrite.start < stop) →
      rewrite.stop = rewrite.start → LabelSpan source config key rewrite

theorem flowLabelAdditionRewrites_spec {labels : LabelCollection} {entry source : Str} {start : ℕ}
    {rewrites : List SpanRewrite} (h : flowLabelAdditionRewrites labels entry source start = .ok rewrites) :
    ∃ stop last, flowCollectionBounds source start = .ok (stop,last) ∧ ∀ rewrite ∈ rewrites,
      (rewrite.start = last + 1 ∨ (start < stop → start ≤ rewrite.start ∧ rewrite.start < stop)) ∧
        rewrite.stop = rewrite.start := by
  unfold flowLabelAdditionRewrites at h
  obtain ⟨⟨stop,last⟩,hbounds,h⟩ := bind_eq_ok.mp h
  refine ⟨stop,last,hbounds,?_⟩
  simp only at h
  obtain ⟨commas,hcommas⟩ : ∃ commas : List SpanRewrite, commas =
      if (decide (last ≠ start) && decide (source[last]? ≠ some ',')) = true then [⟨last + 1,last + 1,[',']⟩]
      else [] := ⟨_,rfl⟩
  rw [← hcommas] at h
  have hcomma : ∀ rewrite ∈ commas, rewrite.start = last + 1 ∧ rewrite.stop = rewrite.start := by
    intro rewrite hmem
    rw [hcommas] at hmem
    split_ifs at hmem
    · obtain rfl := List.mem_singleton.mp hmem
      exact ⟨rfl,rfl⟩
    · cases hmem
  -- The entry goes before the closing bracket or at the start of its line.
  have hentry : ∀ {before : ℕ} {replacement : Str}, before ≤ stop - start - 1 →
      ∀ rewrite ∈ commas ++ [(⟨stop - 1 - before,stop - 1 - before,replacement⟩ : SpanRewrite)],
      (rewrite.start = last + 1 ∨ (start < stop → start ≤ rewrite.start ∧ rewrite.start < stop)) ∧
        rewrite.stop = rewrite.start := by
    intro before replacement hbefore rewrite hmem
    obtain hmem | hmem := List.mem_append.mp hmem
    · exact ⟨.inl (hcomma rewrite hmem).1,(hcomma rewrite hmem).2⟩
    · obtain rfl := List.mem_singleton.mp hmem
      exact ⟨.inr fun hlt => ⟨by simp only; omega,by simp only; omega⟩,rfl⟩
  by_cases hline : (!((source.take stop).drop start).contains '\n') = true
  · rw [if_pos hline] at h
    split at h
    · cases h
      exact fun rewrite hmem => hentry (Nat.zero_le _) rewrite (List.mem_append_right _ hmem)
    · cases h
      exact hentry (Nat.zero_le _)
  · rw [if_neg hline] at h
    split at h
    · exact absurd h (refuse_bind _ _ _)
    · obtain ⟨indent,_,h⟩ := bind_eq_ok.mp h
      cases h
      refine hentry ?_
      rw [List.length_reverse]
      have htake := (List.takeWhile_prefix (fun x => decide (x ≠ '\n'))
        (l := ((source.take stop).drop start).dropLast.reverse)).length_le
      rw [List.length_reverse,List.length_dropLast,List.length_drop,List.length_take] at htake
      omega

theorem sourceLine_of_read {source : Str} {lineNo : ℕ} {line : SourceLine}
    (h : readSourceLine source lineNo = .ok line) :
    sourceLine source lineNo = some line := by
  unfold readSourceLine at h
  split at h
  · cases h
    assumption
  · cases h

theorem emptyServiceLabelsRewrite_spec {labels : LabelsField} {key value source : Str} {rewrite : SpanRewrite}
    (h : emptyServiceLabelsRewrite labels key value source = .ok rewrite) :
    ∃ location line, labels.keyLocation = some location ∧ sourceLine source location.line = some line ∧
      EmptyLabelsLine line.body ∧ line.start ≤ rewrite.start ∧ rewrite.start ≤ rewrite.stop ∧
      rewrite.stop = line.start + line.body.length := by
  unfold emptyServiceLabelsRewrite at h
  split at h
  · exact absurd h (refuse_ne_ok _ _)
  next location hlocation =>
  obtain ⟨line,hline,h⟩ := bind_eq_ok.mp h
  split at h
  · exact absurd h (refuse_ne_ok _ _)
  next read rest hread =>
  dsimp only at h
  split at h
  · exact absurd h (refuse_bind _ _ _)
  next hcomment =>
  obtain ⟨label,_,h⟩ := bind_eq_ok.mp h
  cases h
  refine ⟨location,line,hlocation,sourceLine_of_read hline,⟨read,rest,hread,?_⟩,Nat.le_add_right _ _,
    Nat.add_le_add_left (Nat.sub_le _ _) _,rfl⟩
  simpa [or_iff_not_imp_left] using hcomment

theorem newServiceLabelsRewrite_spec {config : ServiceConfig} {key value source : Str} {rewrite : SpanRewrite}
    (h : newServiceLabelsRewrite config key value source = .ok rewrite) :
    ∃ field location line, config.image = some field ∧ field.location = some location ∧
      sourceLine source location.line = some line ∧ rewrite.start = line.next source ∧
      rewrite.stop = rewrite.start := by
  unfold newServiceLabelsRewrite at h
  split at h
  · next location keyLocation hlocation hkeyLocation =>
    obtain ⟨field,hfield,hplace⟩ := Option.bind_eq_some_iff.mp hlocation
    obtain ⟨line,hline,h⟩ := bind_eq_ok.mp h
    obtain ⟨label,_,h⟩ := bind_eq_ok.mp h
    cases h
    exact ⟨field,location,line,hfield,hplace,sourceLine_of_read hline,rfl,rfl⟩
  · exact absurd h (refuse_ne_ok _ _)

theorem renderYamlScalarLike_double {value rendered : Str} {flow : Bool}
    (h : renderYamlScalarLike ['"'] value flow = .ok rendered) :
    rendered = '"' :: (value.flatMap fun c => if c = '\\' || c = '"' then ['\\',c] else [c]) ++ ['"'] := by
  unfold renderYamlScalarLike at h
  dsimp only at h
  split at h
  · exact absurd h (refuse_ne_ok _ _)
  · cases h
    rfl

theorem yamlScalarSourceRewrite_spec {source expected replacement : Str} {location : Location} {flow : Bool}
    {rewrite : SpanRewrite} (h : yamlScalarSourceRewrite source location expected replacement flow = .ok rewrite) :
    ∃ line token, sourceLine source location.line = some line ∧ location.col < line.body.length ∧
      token ∈ scalarSpellings expected ∧ token <+: line.body.drop location.col ∧
      rewrite.start = line.start + location.col ∧ rewrite.stop = rewrite.start + token.length := by
  unfold yamlScalarSourceRewrite at h
  obtain ⟨line,hline,h⟩ := bind_eq_ok.mp h
  dsimp only at h
  split at h
  · exact absurd h (refuse_bind _ _ _)
  next hcol =>
  obtain ⟨doubleQuoted,hdouble,h⟩ := bind_eq_ok.mp h
  split at h
  · exact absurd h (refuse_bind _ _ _)
  next htoken =>
  obtain ⟨rendered,_,h⟩ := bind_eq_ok.mp h
  cases h
  obtain rfl := renderYamlScalarLike_double hdouble
  generalize hfind : List.find? _ _ = found at htoken ⊢
  cases found with
  | none => exact absurd rfl htoken
  | some token =>
    have hspelled := List.find?_some hfind
    simp only [Bool.and_eq_true,List.isPrefixOf_iff_prefix] at hspelled
    exact ⟨line,token,sourceLine_of_read hline,Nat.lt_of_not_le hcol,List.mem_of_find?_eq_some hfind,hspelled.1,
      rfl,rfl⟩

theorem appendBlockLabelRewrite_spec {labels : LabelsField} {entry source : Str} {rewrite : SpanRewrite}
    (h : appendBlockLabelRewrite labels entry source = .ok rewrite) :
    ∃ location, labels.keyLocation = some location ∧ rewrite.start = yamlBlockEndOffset source location ∧
      rewrite.stop = rewrite.start := by
  unfold appendBlockLabelRewrite at h
  split at h
  · exact absurd h (refuse_ne_ok _ _)
  next location hlocation =>
  obtain ⟨indent,_,h⟩ := bind_eq_ok.mp h
  cases h
  exact ⟨location,hlocation,rfl,rfl⟩

def SpanRewrite.Apart (a b : SpanRewrite) : Prop := a.edit.Apart b.edit

instance : DecidableRel SpanRewrite.Apart := fun a b =>
  inferInstanceAs (Decidable (a.stop ≤ b.start ∨ b.stop ≤ a.start))

/-- Insertions do not overlap. -/
theorem apart_of_points {a b : SpanRewrite} (ha : a.stop = a.start) (hb : b.stop = b.start) : a.Apart b := by
  change a.stop ≤ b.start ∨ b.stop ≤ a.start
  omega

section
variable {config : ServiceConfig} {labels : LabelsField} {key value source service : Str}
variable {flowStart : Option ℕ} {rewrites : List SpanRewrite}

/-- What sets a label: spans of the labels that do not overlap. -/
def SetsLabel (source : Str) (config : ServiceConfig) (key : Str) (rewrites : List SpanRewrite) : Prop :=
  (∀ rewrite ∈ rewrites, LabelSpan source config key rewrite) ∧ rewrites.Pairwise SpanRewrite.Apart

theorem setsLabel_singleton {rewrite : SpanRewrite} (h : LabelSpan source config key rewrite) :
    SetsLabel source config key [rewrite] :=
  ⟨fun _ hmem => List.mem_singleton.mp hmem ▸ h,List.pairwise_singleton _ _⟩

theorem setsLabel_of_flow {entry : Str} {start : ℕ} (hlabels : config.labels = some labels)
    (hlocated : labels.Located) (habsent : serviceLabelPresent config key = .ok false)
    (hflow : serviceLabelsFlowStart labels source = .ok (some start))
    (h : flowLabelAdditionRewrites labels.value entry source start = .ok rewrites) :
    SetsLabel source config key rewrites := by
  obtain ⟨stop,last,hbounds,hall⟩ := flowLabelAdditionRewrites_spec h
  refine ⟨fun rewrite hmem => ?_,?_⟩
  · exact .flow hlabels hlocated habsent hflow hbounds (hall rewrite hmem).1 (hall rewrite hmem).2
  · exact List.pairwise_of_forall_mem_list fun a ha b hb => apart_of_points (hall a ha).2 (hall b hb).2

theorem location_of_flowStart (h : serviceLabelsFlowStart labels source = .ok flowStart) :
    labels.location.isSome = true := by
  unfold serviceLabelsFlowStart at h
  split at h
  · exact absurd h (refuse_ne_ok _ _)
  · next hlocation => rw [hlocation]; rfl

theorem setsLabel_of_block {entry : Str} (hlabels : config.labels = some labels) (hlocated : labels.Located)
    {rewrite : SpanRewrite} (h : appendBlockLabelRewrite labels entry source = .ok rewrite) :
    SetsLabel source config key [rewrite] := by
  obtain ⟨location,hkey,hstart,hpoint⟩ := appendBlockLabelRewrite_spec h
  exact setsLabel_singleton (.block hlabels hlocated hkey hstart hpoint)

theorem setsLabel_of_value {location : Location} {current replacement : Str} {flow : Bool} {rewrite : SpanRewrite}
    (hlabels : config.labels = some labels) (hlocated : labels.Located)
    (htexts : (location,current) ∈ labels.value.texts)
    (h : yamlScalarSourceRewrite source location current replacement flow = .ok rewrite) :
    SetsLabel source config key [rewrite] := by
  obtain ⟨line,token,hline,hcol,htoken,hspelled,hstart,hstop⟩ := yamlScalarSourceRewrite_spec h
  exact setsLabel_singleton (.value hlabels hlocated htexts hline hcol htoken hspelled hstart hstop)

theorem setsLabel_of_mapping {entries : List LabelEntry} (hlabels : config.labels = some labels)
    (hvalue : labels.value = .mapping entries) (hflow : serviceLabelsFlowStart labels source = .ok flowStart)
    (h : mappingLabelSourceRewrites labels entries key value source flowStart = .ok rewrites) :
    SetsLabel source config key rewrites := by
  have hlocated : labels.Located := ⟨by rw [hvalue]; exact LabelCollection.noConfusion,location_of_flowStart hflow⟩
  unfold mappingLabelSourceRewrites at h
  split at h
  · next entry hentry =>
    dsimp only at h
    split at h
    · exact absurd h (refuse_bind _ _ _)
    next hdirect =>
    split at h
    · exact absurd h (refuse_ne_ok _ _)
    next location hplace =>
    split at h
    · next current hcurrent =>
      obtain ⟨rewrite,hrewrite,h⟩ := bind_eq_ok.mp h
      cases h
      refine setsLabel_of_value hlabels hlocated ?_ hrewrite
      rw [hvalue]
      refine List.mem_filterMap.mpr ⟨entry,List.mem_of_find?_eq_some hentry,?_⟩
      have hown : entry.direct = true := by simpa using hdirect
      rw [hown,hplace,hcurrent]
    · exact absurd h (refuse_ne_ok _ _)
  · next hnone =>
    obtain ⟨rendered,_,h⟩ := bind_eq_ok.mp h
    dsimp only at h
    split at h
    · have habsent : serviceLabelPresent config key = .ok false := by
        simp only [serviceLabelPresent,hlabels,LabelsField.collection,Option.map_some,Option.getD_some,hvalue]
        exact congrArg Except.ok (List.any_eq_false.mpr (List.find?_eq_none.mp hnone))
      exact setsLabel_of_flow hlabels hlocated habsent hflow h
    · obtain ⟨rewrite,hrewrite,h⟩ := bind_eq_ok.mp h
      cases h
      exact setsLabel_of_block hlabels hlocated hrewrite

theorem setsLabel_of_sequence {items : List LabelItem} (hlabels : config.labels = some labels)
    (hvalue : labels.value = .sequence items) (hflow : serviceLabelsFlowStart labels source = .ok flowStart)
    (h : sequenceLabelSourceRewrites labels items key value source flowStart service = .ok rewrites) :
    SetsLabel source config key rewrites := by
  have hlocated : labels.Located := ⟨by rw [hvalue]; exact LabelCollection.noConfusion,location_of_flowStart hflow⟩
  unfold sequenceLabelSourceRewrites at h
  obtain ⟨found,hfound,h⟩ := bind_eq_ok.mp h
  split at h
  · next index =>
    split at h
    · exact absurd h (refuse_ne_ok _ _)
    next location hplace =>
    obtain ⟨rewrite,hrewrite,h⟩ := bind_eq_ok.mp h
    cases h
    refine setsLabel_of_value hlabels hlocated ?_ hrewrite
    obtain ⟨offset,item,entry,hindex,hitem,htext⟩ := text_of_sequenceLabelIndex hfound
    obtain rfl : index = offset := by omega
    rw [hitem] at hplace ⊢
    rw [hvalue]
    have hown : item.location = some location := hplace
    refine List.mem_filterMap.mpr ⟨item,List.mem_of_getElem? hitem,?_⟩
    simp [hown,htext]
  · obtain ⟨rendered,_,h⟩ := bind_eq_ok.mp h
    split at h
    · have habsent : serviceLabelPresent config key = .ok false := by
        simp only [serviceLabelPresent,hlabels,LabelsField.collection,Option.map_some,Option.getD_some,hvalue]
        exact congrArg Except.ok (absent_of_sequenceLabelIndex hfound)
      exact setsLabel_of_flow hlabels hlocated habsent hflow h
    · obtain ⟨rewrite,hrewrite,h⟩ := bind_eq_ok.mp h
      cases h
      exact setsLabel_of_block hlabels hlocated hrewrite

/-- The rewrites of a service's labels stand where the labels do. -/
theorem setsLabel_of_rewrite (h : serviceLabelSourceRewrite config key value source service = .ok rewrites) :
    SetsLabel source config key rewrites := by
  unfold serviceLabelSourceRewrite at h
  split at h
  · obtain ⟨rewrite,hrewrite,h⟩ := bind_eq_ok.mp h
    cases h
    obtain ⟨field,location,line,hfield,hplace,hline,hstart,hpoint⟩ := newServiceLabelsRewrite_spec hrewrite
    exact setsLabel_singleton (.behindImage hfield hplace hline hstart hpoint)
  next labels hlabels =>
  split at h
  · next hnull =>
    split at h
    · next hdirect =>
      obtain ⟨rewrite,hrewrite,h⟩ := bind_eq_ok.mp h
      cases h
      obtain ⟨location,line,hplace,hline,hempty,hstart,hle,hstop⟩ := emptyServiceLabelsRewrite_spec hrewrite
      exact setsLabel_singleton (.empty hlabels hdirect hnull hplace hline hempty hstart hle hstop)
    · obtain ⟨rewrite,hrewrite,h⟩ := bind_eq_ok.mp h
      cases h
      obtain ⟨field,location,line,hfield,hplace,hline,hstart,hpoint⟩ := newServiceLabelsRewrite_spec hrewrite
      exact setsLabel_singleton (.behindImage hfield hplace hline hstart hpoint)
  · next entries hentries =>
    obtain ⟨flowStart,hflow,h⟩ := bind_eq_ok.mp h
    exact setsLabel_of_mapping hlabels hentries hflow h
  · next items hitems =>
    obtain ⟨flowStart,hflow,h⟩ := bind_eq_ok.mp h
    exact setsLabel_of_sequence hlabels hitems hflow h
  · exact absurd h (refuse_ne_ok _ _)

end

/-! Where the images and labels of the services stand. -/

/-- What lies between two offsets of the source. -/
structure Extent where
  start : ℕ
  stop : ℕ

def Extent.Apart (a b : Extent) : Prop := a.stop ≤ b.start ∨ b.stop ≤ a.start

/-- An image stands in its extent, with its lines where it fills them. -/
structure ImagePlaced (source : Str) (field : ImageField) (extent : Extent) : Prop where
  oneLine : ∀ {location line image}, field.location = some location → sourceLine source location.line = some line →
    field.value = .text image → ImageLine image line.body →
    extent.start ≤ line.start ∧ line.next source ≤ extent.stop
  twoLines : ∀ {location keyLocation keyLine line image}, field.location = some location →
    field.keyLocation = some keyLocation → location.line = keyLocation.line + 1 →
    sourceLine source keyLocation.line = some keyLine → sourceLine source location.line = some line →
    field.value = .text image → ImageKeyLine keyLine.body → ImageValueLine image line.body →
    extent.start ≤ keyLine.start ∧ line.next source ≤ extent.stop

/-- A flow collection that starts at an offset. -/
structure FlowAt (source : Str) (start : ℕ) (bracket : FlowBracket) (content : FlowContent) : Prop where
  text : ∃ before after, source = before ++ bracket.opening :: (content.text ++ bracket.closing :: after) ∧
    before.length = start
  wellFormed : content.wellFormed bracket.opening

/-- A position on its line, within an extent. -/
def KeyPlaced (source : Str) (location : Location) (extent : Extent) : Prop :=
  ∃ line, sourceLine source location.line = some line ∧ line.start + location.col < line.stop ∧
    extent.start ≤ line.start + location.col ∧ line.start + location.col < extent.stop

/-- Labels stand in their extent: their key, the line of an empty field, their values, and a flow collection
with its content. -/
structure LabelsPlaced (source : Str) (labels : LabelsField) (extent : Extent) (content : FlowContent) : Prop where
  key : ∀ {location}, labels.keyLocation = some location → KeyPlaced source location extent
  empty : ∀ {location line}, labels.value = .null → labels.keyLocation = some location →
    sourceLine source location.line = some line → EmptyLabelsLine line.body →
    extent.start ≤ line.start ∧ line.start + line.body.length ≤ extent.stop
  value : ∀ {location line current token}, (location,current) ∈ labels.value.texts →
    sourceLine source location.line = some line → token ∈ scalarSpellings current →
    token <+: line.body.drop location.col →
    extent.start ≤ line.start + location.col ∧ line.start + location.col + token.length ≤ extent.stop
  flow : ∀ {start}, labels.Located → serviceLabelsFlowStart labels source = .ok (some start) → ∃ bracket,
    FlowAt source start bracket content ∧ extent.start ≤ start ∧ start + content.text.length + 2 ≤ extent.stop

section
variable {source image : Str} {field : ImageField} {rewrite : SpanRewrite} {extent : Extent}

/-- The rewrite of an image lies in the image's extent, before the end of its last line. -/
theorem ImageSpan.within (h : ImageSpan source image field rewrite) (hvalue : field.value = .text image)
    (hplaced : ImagePlaced source field extent) {location : Location} {line : SourceLine}
    (hlocation : field.location = some location) (hline : sourceLine source location.line = some line) :
    extent.start < rewrite.start ∧ rewrite.start ≤ rewrite.stop ∧ rewrite.stop ≤ line.stop ∧
      line.next source ≤ extent.stop := by
  obtain ⟨ending,rest,hisLine⟩ := isLine hline
  have hbound := hisLine.stop
  cases h with
  | oneLine hlocation' hline' hform hbody hfront hstart hstop _ =>
    obtain rfl := Option.some.inj (hlocation.symm.trans hlocation')
    obtain rfl := Option.some.inj (hline.symm.trans hline')
    obtain ⟨hfirst,hlast⟩ := hplaced.oneLine hlocation hline hvalue hform
    have hfront := List.length_pos_of_ne_nil hfront
    rw [hbody,List.length_append,List.length_append] at hbound
    exact ⟨by omega,by omega,by omega,hlast⟩
  | twoLines hlocation' hkeyLocation hnext hkeyLine hline' hkeyForm hform _ _ hbody hstart hstop _ =>
    obtain rfl := Option.some.inj (hlocation.symm.trans hlocation')
    obtain rfl := Option.some.inj (hline.symm.trans hline')
    obtain ⟨hfirst,hlast⟩ := hplaced.twoLines hlocation hkeyLocation hnext hkeyLine hline hvalue hkeyForm hform
    obtain ⟨_,_,hisKeyLine⟩ := isLine hkeyLine
    have hkeyBound := hisKeyLine.stop
    have horder := hisKeyLine.stop_lt_start hisLine (by omega)
    obtain ⟨read,value,hread,_⟩ := hkeyForm
    obtain ⟨front,hkey,_⟩ := afterYamlKey_spec hread
    have hpositive := congrArg List.length hkey
    rw [List.length_append,List.length_cons] at hpositive
    rw [hbody,List.length_append,List.length_append] at hbound
    exact ⟨by omega,by omega,by omega,hlast⟩

theorem slice_of_drop {front middle tail : Str} {offset start stop : ℕ}
    (h : source.drop offset = front ++ (middle ++ tail)) (hstart : start = offset + front.length)
    (hstop : stop = start + middle.length) : (source.take stop).drop start = middle := by
  have hdrop : source.drop start = middle ++ tail := by
    rw [hstart,← List.drop_drop,h,List.drop_left]
  rw [List.drop_take,hdrop,hstop,Nat.add_sub_cancel_left,List.take_left]

/-- What is replaced is the image, with the break of the line before it and the blanks around. -/
theorem ImageSpan.replaced (h : ImageSpan source image field rewrite) :
    ∃ gap, (source.take rewrite.stop).drop rewrite.start = gap ++ image ∧ ∀ c ∈ gap, c ∈ yamlBlanks := by
  cases h with
  | oneLine _ hline _ hbody _ hstart hstop _ =>
    obtain ⟨ending,rest,hisLine⟩ := isLine hline
    have htext := hisLine.text
    rw [hbody,List.append_assoc,List.append_assoc] at htext
    refine ⟨[],?_,by simp⟩
    rw [List.nil_append]
    exact slice_of_drop htext hstart (by omega)
  | @twoLines location keyLocation keyLine line blanks tail _ _ hnext hkeyLine hline _ _ _ hblanks hbody hstart hstop =>
    obtain ⟨ending,rest,hisKeyLine⟩ := isLine hkeyLine
    obtain ⟨ending',rest',hisLine⟩ := isLine hline
    rw [hnext] at hisLine
    have hbreak := hisKeyLine.next_start hisLine
    have hkeyStop := hisKeyLine.stop
    have hrest : rest = '\n' :: source.drop line.start := by
      have hlength := hisKeyLine.length
      have hle := lineStart_le_length hisLine.start
      cases rest with
      | nil =>
        rw [List.length_nil] at hlength
        omega
      | cons c rest =>
        obtain rfl := hisKeyLine.rest c rfl
        rw [hbreak,← List.drop_drop,hisKeyLine.drop_stop]
        rfl
    refine ⟨ending ++ '\n' :: blanks,?_,?_⟩
    · have htext := hisKeyLine.text
      rw [hrest,hisLine.text,hbody] at htext
      have hsplit : source.drop keyLine.start = keyLine.body ++ ((ending ++ '\n' :: blanks ++ image) ++
          (tail ++ (ending' ++ rest'))) := by
        rw [htext]
        simp
      refine slice_of_drop hsplit hstart ?_
      simp only [List.length_append,List.length_cons]
      omega
    · intro c hc
      obtain hending | hbehind := List.mem_append.mp hc
      · rw [hisKeyLine.carriage c hending]
        decide
      · obtain rfl | hblank := List.mem_cons.mp hbehind
        · decide
        · have hblank := List.all_eq_true.mp hblanks c hblank
          obtain rfl | rfl : c = ' ' ∨ c = '\t' := by simpa [isBlank] using hblank
          · decide
          · decide

/-- The image of a rewrite has a line. -/
theorem ImageSpan.exists_line (h : ImageSpan source image field rewrite) :
    ∃ location line, field.location = some location ∧ sourceLine source location.line = some line := by
  cases h with
  | oneLine hlocation hline => exact ⟨_,_,hlocation,hline⟩
  | twoLines hlocation _ _ _ hline => exact ⟨_,_,hlocation,hline⟩

/-- The end of a block of labels does not lie inside an image, nor between the lines of its key and its value. -/
theorem ImageSpan.block_apart (h : ImageSpan source image field rewrite) (hvalue : field.value = .text image)
    (hplaced : ImagePlaced source field extent) {labelsExtent : Extent} (hapart : extent.Apart labelsExtent)
    {key : Location} (hkey : KeyPlaced source key labelsExtent) :
    yamlBlockEndOffset source key ≤ rewrite.start ∨ rewrite.stop ≤ yamlBlockEndOffset source key := by
  obtain ⟨location,line,hlocation,hline⟩ := h.exists_line
  obtain ⟨_,hle,hstop,hlast⟩ := h.within hvalue hplaced hlocation hline
  cases h with
  | oneLine hlocation' hline' _ _ _ hstart _ _ =>
    obtain rfl := Option.some.inj (hlocation.symm.trans hlocation')
    obtain rfl := Option.some.inj (hline.symm.trans hline')
    exact blockEnd_apart_line key ⟨_,_,hline,by omega,hstop⟩
  | @twoLines location' keyLocation keyLine line' blanks tail hlocation' hkeyLocation hnext hkeyLine hline' hkeyForm
      hform hdeeper hblanks hbody hstart _ _ =>
    obtain rfl := Option.some.inj (hlocation.symm.trans hlocation')
    obtain rfl := Option.some.inj (hline.symm.trans hline')
    obtain ⟨hfirst,_⟩ := hplaced.twoLines hlocation hkeyLocation hnext hkeyLine hline hvalue hkeyForm hform
    obtain ⟨read,value,hread,_⟩ := hkeyForm
    obtain ⟨front,hcolon,_⟩ := afterYamlKey_spec hread
    have hstrip : strip keyLine.body ≠ [] :=
      stripChars_ne_nil (hcolon ▸ List.mem_append_right front List.mem_cons_self) (show ':' ∉ whitespace by decide)
    have hwidth := le_lineIndentWidth hblanks (image ++ tail)
    rw [← hbody] at hwidth
    have hne : key.line ≠ keyLocation.line := by
      intro hsame
      obtain ⟨keyLine',hkeyLine',hkeyStop,hkeyStart,hkeyExtent⟩ := hkey
      rw [hsame] at hkeyLine'
      obtain rfl := Option.some.inj (hkeyLine.symm.trans hkeyLine')
      obtain ⟨_,_,hisKeyLine⟩ := isLine hkeyLine
      obtain ⟨_,_,hisLine⟩ := isLine hline
      have horder := hisKeyLine.stop_lt_start hisLine (by omega)
      have := hisLine.stop
      have hnextLine : line.stop ≤ line.next source := by
        unfold SourceLine.next
        split_ifs <;> omega
      obtain hbefore | hafter := hapart <;> omega
    obtain hbefore | hafter := blockEnd_apart_lines hkeyLine (hnext ▸ hline) hstrip (hdeeper.trans_le hwidth) hne
    · left
      omega
    · right
      omega

end

/-- Where a rewrite of a service's labels stands, by the extents of its image and its labels. -/
inductive Placement (source : Str) (imageExtent labelsExtent : Extent) (image rewrite : SpanRewrite) : Prop
  | behindImage : image.stop ≤ rewrite.start → rewrite.stop = rewrite.start → imageExtent.start ≤ rewrite.start →
      rewrite.stop ≤ imageExtent.stop → Placement source imageExtent labelsExtent image rewrite
  | inLabels : labelsExtent.start ≤ rewrite.start → rewrite.start ≤ rewrite.stop →
      rewrite.stop ≤ labelsExtent.stop → rewrite.stop = rewrite.start ∨ InLine source rewrite.start rewrite.stop →
      Placement source imageExtent labelsExtent image rewrite
  | block {key : Location} : KeyPlaced source key labelsExtent → rewrite.start = yamlBlockEndOffset source key →
      rewrite.stop = rewrite.start → Placement source imageExtent labelsExtent image rewrite

/-- A replacement that the source holds. -/
def SpanRewrite.Fits (rewrite : SpanRewrite) (source : Str) : Prop := rewrite.edit.Fits source.length

section
variable {source oldImage : Str} {config : ServiceConfig} {field : ImageField} {image rewrite : SpanRewrite}
variable {imageExtent labelsExtent : Extent}

theorem next_le_length {n : ℕ} {line : SourceLine} (h : sourceLine source n = some line) :
    line.stop ≤ line.next source ∧ line.next source ≤ source.length := by
  obtain ⟨_,_,hisLine⟩ := isLine h
  have := hisLine.stop_le
  unfold SourceLine.next
  split_ifs <;> omega

theorem yamlBlockEndOffset_le (source : Str) (key : Location) : yamlBlockEndOffset source key ≤ source.length := by
  obtain hend | ⟨n,line,_,hline,hoffset,_⟩ := yamlBlockEndOffset_spec source key
  · exact hend.le
  · obtain ⟨_,_,hisLine⟩ := isLine hline
    exact hoffset ▸ lineStart_le_length hisLine.start

/-- Where the scanner finds the end of a flow collection, an added entry stands within the collection. -/
theorem inside_of_flowBounds {start stop last : ℕ} {bracket : FlowBracket} {content : FlowContent}
    (hflow : FlowAt source start bracket content) (hsettled : content.Settled)
    (h : flowCollectionBounds source start = .ok (stop,last)) :
    stop = start + content.text.length + 2 ∧ start ≤ last ∧ last < start + content.text.length + 1 ∧
      stop ≤ source.length := by
  obtain ⟨before,after,rfl,rfl⟩ := hflow.text
  have hfound : content.Found bracket before after := found_of_settled before after hflow.wellFormed hsettled
  unfold FlowContent.Found at hfound
  rw [hfound] at h
  obtain ⟨rfl,rfl⟩ := Prod.mk.inj (Except.ok.inj h)
  have := significant_le_length content
  refine ⟨rfl,Nat.le_add_right _ _,by omega,?_⟩
  rw [List.length_append,List.length_cons,List.length_append,List.length_cons]
  omega

theorem placement_of_labelSpan {key : Str} (content : FlowContent) (h : LabelSpan source config key rewrite)
    (hfield : config.image = some field)
    (himage : ImageSpan source oldImage field image) (hvalue : field.value = .text oldImage)
    (himagePlaced : ImagePlaced source field imageExtent)
    (hlabelsPlaced : ∀ labels, config.labels = some labels → labels.value = .null ∧ labels.direct = true ∨
      labels.Located → LabelsPlaced source labels labelsExtent content)
    (hsettle : ∀ labels start, config.labels = some labels → labels.Located →
      serviceLabelPresent config key = .ok false → serviceLabelsFlowStart labels source = .ok (some start) →
      content.Settled) :
    Placement source imageExtent labelsExtent image rewrite ∧ rewrite.Fits source := by
  cases h with
  | behindImage hfield' hlocation hline hstart hpoint =>
    obtain rfl := Option.some.inj (hfield.symm.trans hfield')
    obtain ⟨hfirst,hle,hstop,hlast⟩ := himage.within hvalue himagePlaced hlocation hline
    obtain ⟨hnext,hlength⟩ := next_le_length hline
    refine ⟨.behindImage (by omega) hpoint (by omega) (by omega),hpoint.ge,?_⟩
    change rewrite.stop ≤ source.length
    omega
  | empty hlabels hdirect hnull hkey hline hempty hstart hle hstop =>
    have hplaced := hlabelsPlaced _ hlabels (.inl ⟨hnull,hdirect⟩)
    obtain ⟨hfirst,hlast⟩ := hplaced.empty hnull hkey hline hempty
    obtain ⟨_,_,hisLine⟩ := isLine hline
    have hbound := hisLine.stop
    have hlength := hisLine.stop_le
    refine ⟨.inLabels (by omega) hle (by omega) (.inr ⟨_,_,hline,hstart,by omega⟩),hle,?_⟩
    change rewrite.stop ≤ source.length
    omega
  | value hlabels hlocated htexts hline hcol htoken hspelled hstart hstop =>
    have hplaced := hlabelsPlaced _ hlabels (.inr hlocated)
    obtain ⟨hfirst,hlast⟩ := hplaced.value htexts hline htoken hspelled
    obtain ⟨_,_,hisLine⟩ := isLine hline
    have hbound := hisLine.stop
    have hlength := hisLine.stop_le
    have htokenLength := hspelled.length_le
    rw [List.length_drop] at htokenLength
    refine ⟨.inLabels (by omega) (by omega) (by omega) (.inr ⟨_,_,hline,by omega,by omega⟩),?_,?_⟩
    · change rewrite.start ≤ rewrite.stop
      omega
    · change rewrite.stop ≤ source.length
      omega
  | block hlabels hlocated hkey hstart hpoint =>
    have hplaced := hlabelsPlaced _ hlabels (.inr hlocated)
    refine ⟨.block (hplaced.key hkey) hstart hpoint,?_,?_⟩
    · exact hpoint.ge
    · change rewrite.stop ≤ source.length
      rw [hpoint,hstart]
      exact yamlBlockEndOffset_le ..
  | flow hlabels hlocated habsent hflow hbounds hwhere hpoint =>
    have hplaced := hlabelsPlaced _ hlabels (.inr hlocated)
    have hsettled := hsettle _ _ hlabels hlocated habsent hflow
    obtain ⟨bracket,hcontent,hfirst,hlast⟩ := hplaced.flow hlocated hflow
    obtain ⟨hstop,hbehind,hbefore,hlength⟩ := inside_of_flowBounds hcontent hsettled hbounds
    have hinside : labelsExtent.start ≤ rewrite.start ∧ rewrite.start ≤ labelsExtent.stop ∧
        rewrite.start ≤ source.length := by
      obtain hcomma | hentry := hwhere
      · omega
      · obtain ⟨hafter,hin⟩ := hentry (by omega)
        omega
    refine ⟨.inLabels hinside.1 hpoint.ge (by omega) (.inl hpoint),hpoint.ge,?_⟩
    change rewrite.stop ≤ source.length
    omega

end

section
variable {source oldImage : Str} {field : ImageField} {image image' other rewrite rewrite' : SpanRewrite}
variable {imageExtent labelsExtent imageExtent' labelsExtent' : Extent}

theorem SpanRewrite.Apart.symm {a b : SpanRewrite} (h : a.Apart b) : b.Apart a := Or.symm h

theorem apart_of_extents {first second : Extent} (h : first.Apart second) {a b : SpanRewrite}
    (ha : first.start ≤ a.start ∧ a.stop ≤ first.stop) (hb : second.start ≤ b.start ∧ b.stop ≤ second.stop) :
    a.Apart b := by
  change a.stop ≤ b.start ∨ b.stop ≤ a.start
  obtain h | h := h <;> omega

/-- A rewrite of labels does not overlap an image, be it of the same service or of another one. -/
theorem Placement.apart_image (h : Placement source imageExtent labelsExtent image rewrite)
    (hother : ImageSpan source oldImage field other) (hvalue : field.value = .text oldImage)
    (hplaced : ImagePlaced source field imageExtent') (hlabels : imageExtent'.Apart labelsExtent)
    (himage : other = image ∨ imageExtent.Apart imageExtent') : other.Apart rewrite := by
  obtain ⟨location,line,hlocation,hline⟩ := hother.exists_line
  obtain ⟨hstart,_,hstop,hlast⟩ := hother.within hvalue hplaced hlocation hline
  have hnext := (next_le_length hline).1
  have hinside : imageExtent'.start ≤ other.start ∧ other.stop ≤ imageExtent'.stop := by omega
  cases h with
  | behindImage hbehind hpoint hfirst hlast' =>
    obtain rfl | himages := himage
    · exact .inl hbehind
    · exact (apart_of_extents himages ⟨hfirst,hlast'⟩ hinside).symm
  | inLabels hfirst _ hlast' _ => exact apart_of_extents hlabels hinside ⟨hfirst,hlast'⟩
  | block hkey hoffset hpoint =>
    have := hother.block_apart hvalue hplaced hlabels hkey
    change other.stop ≤ rewrite.start ∨ rewrite.stop ≤ other.start
    omega

/-- The rewrites of the labels of two services do not overlap. -/
theorem Placement.apart (h : Placement source imageExtent labelsExtent image rewrite)
    (h' : Placement source imageExtent' labelsExtent' image' rewrite')
    (hlabels : labelsExtent.Apart labelsExtent') (hfirst : imageExtent.Apart labelsExtent')
    (hsecond : imageExtent'.Apart labelsExtent) : rewrite.Apart rewrite' := by
  have hblock : ∀ {key : Location} {a b : SpanRewrite}, a.start = yamlBlockEndOffset source key → a.stop = a.start →
      b.stop = b.start ∨ InLine source b.start b.stop → a.Apart b := by
    rintro key a b hoffset hpoint (hpoint' | hline)
    · exact apart_of_points hpoint hpoint'
    · have := blockEnd_apart_line key hline
      change a.stop ≤ b.start ∨ b.stop ≤ a.start
      omega
  cases h with
  | behindImage _ hpoint hstart hstop =>
    cases h' with
    | behindImage _ hpoint' _ _ => exact apart_of_points hpoint hpoint'
    | inLabels hstart' _ hstop' _ => exact apart_of_extents hfirst ⟨hstart,hstop⟩ ⟨hstart',hstop'⟩
    | block _ _ hpoint' => exact apart_of_points hpoint hpoint'
  | inLabels hstart _ hstop hshape =>
    cases h' with
    | behindImage _ _ hstart' hstop' => exact (apart_of_extents hsecond ⟨hstart',hstop'⟩ ⟨hstart,hstop⟩).symm
    | inLabels hstart' _ hstop' _ => exact apart_of_extents hlabels ⟨hstart,hstop⟩ ⟨hstart',hstop'⟩
    | block _ hoffset hpoint' => exact (hblock hoffset hpoint' hshape).symm
  | block _ hoffset hpoint =>
    cases h' with
    | behindImage _ hpoint' _ _ => exact apart_of_points hpoint hpoint'
    | inLabels _ _ _ hshape => exact hblock hoffset hpoint hshape
    | block _ _ hpoint' => exact apart_of_points hpoint hpoint'

end

end Wudup

import Wudup.ComposeSource

/-! Where the flow collection of a service's labels ends. -/
namespace Wudup
open Library

/-! What stands between the brackets of a flow collection. -/

/-- The white space of YAML. -/
def yamlBlanks : Str := [' ','\t','\n','\r']

def flowIndicators : Str := [',','[',']','\x7b','\x7d']

inductive LineBreak where
  | lf
  | crlf
  | cr
  deriving DecidableEq, Repr

def LineBreak.text : LineBreak → Str
  | .lf => ['\n']
  | .crlf => ['\r','\n']
  | .cr => ['\r']

structure FlowComment where
  body : Str
  oneLine : ∀ c ∈ body, c ≠ '\n' ∧ c ≠ '\r'
  ending : LineBreak

def FlowComment.text (comment : FlowComment) : Str := '#' :: (comment.body ++ comment.ending.text)

/-- A scalar without quotes around it; it may hold quotes, and a `#` where no white space is before. -/
structure PlainScalar where
  text : Str
  head : ∃ c ∈ text.head?, c ∉ yamlBlanks ∧ c ∉ ['#','\'','"']
  inside : ∀ c ∈ text, c ∉ flowIndicators
  noComment : text.IsChain fun before c => c = '#' → before ∉ yamlBlanks
  last : ∀ c ∈ text.getLast?, c ∉ whitespace ∧ c ≠ ':'

/-- A character of a double quoted scalar, as it is or behind a backslash. -/
inductive QuotedChar where
  | raw (c : Char) (plain : c ≠ '"' ∧ c ≠ '\\')
  | escaped (c : Char)

def QuotedChar.text : QuotedChar → Str
  | .raw c _ => [c]
  | .escaped c => ['\\',c]

def singleText (body : Str) : Str :=
  '\'' :: (body.flatMap (fun c => if c = '\'' then ['\'','\''] else [c]) ++ ['\''])

def doubleText (body : List QuotedChar) : Str := '"' :: (body.flatMap QuotedChar.text ++ ['"'])

inductive FlowBracket where
  | square
  | curly
  deriving DecidableEq, Repr

def FlowBracket.opening : FlowBracket → Char
  | .square => '['
  | .curly => '\x7b'

def FlowBracket.closing : FlowBracket → Char
  | .square => ']'
  | .curly => '\x7d'

@[simp] theorem closes_bracket (bracket : FlowBracket) : closes bracket.opening bracket.closing = true := by
  cases bracket <;> rfl

theorem exists_bracket {c : Char} (h : ¬ c ∉ ['[',']','\x7b','\x7d']) :
    ∃ bracket : FlowBracket, c = bracket.opening ∨ c = bracket.closing := by
  simp only [List.mem_cons,List.not_mem_nil,or_false,not_not] at h
  obtain rfl | rfl | rfl | rfl := h
  · exact ⟨.square,.inl rfl⟩
  · exact ⟨.square,.inr rfl⟩
  · exact ⟨.curly,.inl rfl⟩
  · exact ⟨.curly,.inr rfl⟩

inductive FlowContent where
  | done
  | blank (c : Char) (space : c ∈ whitespace) (rest : FlowContent)
  | comment (line : FlowComment) (rest : FlowContent)
  | comma (rest : FlowContent)
  | colon (rest : FlowContent)
  | plain (scalar : PlainScalar) (rest : FlowContent)
  | single (body : Str) (rest : FlowContent)
  | double (body : List QuotedChar) (rest : FlowContent)
  | collection (bracket : FlowBracket) (inner rest : FlowContent)

namespace FlowContent

def text : FlowContent → Str
  | .done => []
  | .blank c _ rest => c :: rest.text
  | .comment line rest => line.text ++ rest.text
  | .comma rest => ',' :: rest.text
  | .colon rest => ':' :: rest.text
  | .plain scalar rest => scalar.text ++ rest.text
  | .single body rest => singleText body ++ rest.text
  | .double body rest => doubleText body ++ rest.text
  | .collection bracket inner rest => bracket.opening :: (inner.text ++ bracket.closing :: rest.text)

/-- The length up to the last character outside comments and white space. -/
def significant : FlowContent → ℕ
  | .done => 0
  | .blank _ _ rest => if rest.significant = 0 then 0 else 1 + rest.significant
  | .comment line rest => if rest.significant = 0 then 0 else line.text.length + rest.significant
  | .comma rest => 1 + rest.significant
  | .colon rest => 1 + rest.significant
  | .plain scalar rest => scalar.text.length + rest.significant
  | .single body rest => (singleText body).length + rest.significant
  | .double body rest => (doubleText body).length + rest.significant
  | .collection _ inner rest => inner.text.length + 2 + rest.significant

/-- Scalars and collections start behind white space, an opening bracket, a comma or a colon. -/
def startsNode (previous : Char) : Prop := previous ∈ yamlBlanks ++ ['[','\x7b',',',':']

/-- What may stand behind the character before: a comment behind white space only, and a colon behind a
quoted key or a collection, or where no plain scalar could go on with it. -/
def wellFormed : Char → FlowContent → Prop
  | _, .done => True
  | _, .blank c _ rest => rest.wellFormed c
  | previous, .comment line rest =>
    previous ∈ yamlBlanks ∧ (line.ending = .cr → rest.text.head? ≠ some '\n') ∧ rest.wellFormed '\n'
  | _, .comma rest => rest.wellFormed ','
  | previous, .colon rest =>
    (previous ∈ ['"','\'',']','\x7d'] ∨ ∀ c ∈ rest.text.head?, c ∈ yamlBlanks ++ flowIndicators) ∧
      rest.wellFormed ':'
  | previous, .plain scalar rest =>
    startsNode previous ∧ rest.wellFormed (scalar.text.getLast?.getD previous)
  | previous, .single _ rest => startsNode previous ∧ rest.wellFormed '\''
  | previous, .double _ rest => startsNode previous ∧ rest.wellFormed '"'
  | previous, .collection bracket inner rest =>
    startsNode previous ∧ inner.wellFormed bracket.opening ∧ rest.wellFormed bracket.closing

/-- The character in front of what follows the content. -/
def behind : Char → FlowContent → Char
  | previous, .done => previous
  | _, .blank c _ rest => rest.behind c
  | _, .comment _ rest => rest.behind '\n'
  | _, .comma rest => rest.behind ','
  | _, .colon rest => rest.behind ':'
  | previous, .plain scalar rest => rest.behind (scalar.text.getLast?.getD previous)
  | _, .single _ rest => rest.behind '\''
  | _, .double _ rest => rest.behind '"'
  | _, .collection bracket _ rest => rest.behind bracket.closing

end FlowContent

/-! Where the quotes of a plain scalar leave the scanner. -/

def behindSpace (previous : Option Char) : Bool := previous.any fun c => whitespace.contains c

def FlowMode.next (previous : Option Char) (c : Char) : FlowMode → FlowMode
  | .comment => if c = '\n' then .plain else .comment
  | .single => if c = '\'' then .plain else .single
  | .double escaped =>
    if escaped then .double false else if c = '\\' then .double true else if c = '"' then .plain else .double false
  | .plain =>
    if c = '#' && behindSpace previous then .comment else if c = '\'' then .single
    else if c = '"' then .double false else .plain

def modeAfter (previous : Option Char) (mode : FlowMode) : Str → FlowMode
  | [] => mode
  | c :: text => modeAfter (some c) (mode.next previous c) text

/-- The quotes of the scalar, taken as quotes around a text, pair up before it ends. -/
def PlainScalar.Settles (scalar : PlainScalar) : Prop := modeAfter none .plain scalar.text = .plain

/-- Every plain scalar settles, and no comment ends with a carriage return alone. -/
def FlowContent.Settled : FlowContent → Prop
  | .done => True
  | .blank _ _ rest => rest.Settled
  | .comment line rest => line.ending ≠ .cr ∧ rest.Settled
  | .comma rest => rest.Settled
  | .colon rest => rest.Settled
  | .plain scalar rest => scalar.Settles ∧ rest.Settled
  | .single _ rest => rest.Settled
  | .double _ rest => rest.Settled
  | .collection _ inner rest => inner.Settled ∧ rest.Settled

/-- What the scanner knows of the text that it has read. -/
@[ext] structure FlowScan where
  previous : Option Char
  index : ℕ
  last : ℕ
  mode : FlowMode

namespace FlowScan

def bounds (scan : FlowScan) (start : ℕ) (opened : List Char) (text : Str) : Rewrite (ℕ × ℕ) :=
  flowBounds start scan.previous scan.index scan.last opened scan.mode text

/-- A comment and white space leave the last significant character where it was. -/
def skips (scan : FlowScan) (c : Char) : Bool :=
  match scan.mode with
  | .comment => true
  | .plain => whitespace.contains c || (c = '#' && behindSpace scan.previous)
  | _ => false

/-- Reads a character that is no bracket to the scanner. -/
def read (scan : FlowScan) (c : Char) : FlowScan where
  previous := some c
  index := scan.index + 1
  last := if scan.skips c then scan.last else scan.index
  mode := scan.mode.next scan.previous c

/-- Two quotes in a row close the scalar and open it again. -/
theorem flowBounds_single (start : ℕ) (previous : Option Char) (index last : ℕ) (opened : List Char) (c : Char)
    (text : Str) :
    flowBounds start previous index last opened .single (c :: text) =
      flowBounds start (some c) (index + 1) index opened (if c = '\'' then .plain else .single) text := by
  by_cases hquote : ∃ rest, text = '\'' :: rest
  · obtain ⟨rest,rfl⟩ := hquote
    rw [flowBounds.eq_3]
    by_cases hc : c = '\''
    · subst hc
      simp [flowBounds]
    · simp only [hc,if_false]
  · rw [flowBounds.eq_4 _ _ _ _ _ _ _ fun rest hrest => hquote ⟨rest,hrest⟩]
    by_cases hc : c = '\'' <;> simp only [hc,if_true,if_false]

theorem flowBounds_plain {start index : ℕ} (previous : Option Char) (last : ℕ) (opened : List Char) {c : Char}
    (text : Str) (hindex : start < index) (hc : c ∉ ['[',']','\x7b','\x7d']) :
    flowBounds start previous index last opened .plain (c :: text) =
      flowBounds start (some c) (index + 1)
        (if whitespace.contains c || (c = '#' && behindSpace previous) then last else index) opened
        (FlowMode.next previous c .plain) text := by
  simp only [List.mem_cons,List.not_mem_nil,or_false,not_or] at hc
  obtain ⟨hsquare,hclose,hcurly,hclosed⟩ := hc
  have hne : index ≠ start := by omega
  have hspace : ∀ d ∈ ['#','\'','"'], whitespace.contains d = false := forall_mem_of_all (by decide)
  rw [flowBounds.eq_def]
  by_cases hhash : c = '#'
  · subst hhash
    cases hb : behindSpace previous <;>
      simp_all [FlowMode.next,behindSpace]
  by_cases hsingle : c = '\''
  · subst hsingle
    simp_all [FlowMode.next]
  by_cases hdouble : c = '"'
  · subst hdouble
    simp_all [FlowMode.next]
  cases hw : whitespace.contains c <;>
    simp_all [FlowMode.next]

theorem bounds_cons {scan : FlowScan} {start : ℕ} (opened : List Char) {c : Char} (text : Str)
    (hindex : start < scan.index) (hc : scan.mode ≠ .plain ∨ c ∉ ['[',']','\x7b','\x7d']) :
    scan.bounds start opened (c :: text) = (scan.read c).bounds start opened text := by
  obtain ⟨previous,index,last,mode⟩ := scan
  cases mode with
  | comment => rfl
  | single => exact flowBounds_single start previous index last opened c text
  | double escaped => rfl
  | plain => exact flowBounds_plain previous last opened text hindex (hc.resolve_left (by simp))

theorem bounds_opening (start index : ℕ) (previous : Option Char) (last : ℕ) (opened : List Char)
    (bracket : FlowBracket) (text : Str) :
    (⟨previous,index,last,.plain⟩ : FlowScan).bounds start opened (bracket.opening :: text) =
      (⟨some bracket.opening,index + 1,index,.plain⟩ : FlowScan).bounds start (bracket.opening :: opened) text := by
  unfold bounds
  rw [flowBounds.eq_def]
  cases bracket <;> rfl

theorem bounds_closing (start index : ℕ) (previous : Option Char) (last : ℕ) (opening : Char) (opened : List Char)
    (bracket : FlowBracket) (text : Str) :
    (⟨previous,index,last,.plain⟩ : FlowScan).bounds start (opening :: opened) (bracket.closing :: text) =
      if !closes opening bracket.closing then refuse "Service labels use a malformed flow collection."
      else if opened = [] then .ok (index + 1,last)
      else (⟨some bracket.closing,index + 1,index,.plain⟩ : FlowScan).bounds start opened text := by
  unfold bounds
  rw [flowBounds.eq_def]
  cases bracket <;> rfl

/-- The end that the scanner reports is behind what it has read. -/
theorem index_lt_of_bounds {start : ℕ} {stop : ℕ × ℕ} {text : Str} {scan : FlowScan} {opened : List Char}
    (hindex : start < scan.index) (h : scan.bounds start opened text = .ok stop) : scan.index < stop.1 := by
  induction text generalizing scan opened with
  | nil => simp [bounds,flowBounds,refuse] at h
  | cons c text ih =>
    have hnext : ∀ {scan' : FlowScan} {opened' : List Char}, scan'.index = scan.index + 1 →
        scan'.bounds start opened' text = .ok stop → scan.index < stop.1 := fun hscan hbounds => by
      have := ih (hscan ▸ by omega) hbounds
      omega
    by_cases hc : scan.mode ≠ .plain ∨ c ∉ ['[',']','\x7b','\x7d']
    · rw [bounds_cons opened text hindex hc] at h
      exact hnext rfl h
    · obtain ⟨previous,index,last,mode⟩ := scan
      obtain ⟨hmode,hbracket⟩ := not_or.mp hc
      obtain rfl : mode = .plain := not_not.mp hmode
      obtain ⟨bracket,rfl | rfl⟩ := exists_bracket hbracket
      · rw [bounds_opening] at h
        exact hnext rfl h
      · cases opened with
        | nil =>
          unfold bounds at h
          rw [flowBounds.eq_def] at h
          cases bracket <;> simp [FlowBracket.closing,refuse] at h
        | cons opening opened =>
          rw [bounds_closing] at h
          split_ifs at h
          · simp [refuse] at h
          · cases h
            exact Nat.lt_succ_self index
          · exact hnext rfl h

/-- What the scanner does with a text: behind it, it goes on as from `after`. -/
def Passes (start : ℕ) (opened : List Char) (scan : FlowScan) (text : Str) (after : FlowScan) : Prop :=
  ∀ rest, scan.bounds start opened (text ++ rest) = after.bounds start opened rest

theorem Passes.append {start : ℕ} {opened : List Char} {scan middle after : FlowScan} {first second : Str}
    (h₁ : Passes start opened scan first middle) (h₂ : Passes start opened middle second after) :
    Passes start opened scan (first ++ second) after := by
  intro rest
  rw [List.append_assoc,h₁,h₂]

theorem Passes.append_of_eq {start : ℕ} {opened : List Char} {scan middle after : FlowScan} {first second : Str}
    {index last : ℕ} (h₁ : Passes start opened scan first middle) (h₂ : Passes start opened middle second after)
    (hindex : after.index = index) (hlast : after.last = last) :
    Passes start opened scan (first ++ second) ⟨after.previous,index,last,after.mode⟩ := by
  subst hindex hlast
  exact h₁.append h₂

theorem foldl_index (text : Str) (scan : FlowScan) : (text.foldl read scan).index = scan.index + text.length := by
  induction text generalizing scan with
  | nil => rfl
  | cons c text ih =>
    rw [List.foldl_cons,ih]
    simp only [read,List.length_cons]
    omega

theorem foldl_previous (text : Str) (c : Char) (scan : FlowScan) :
    ((text ++ [c]).foldl read scan).previous = some c := by
  rw [List.foldl_append]
  rfl

theorem foldl_mode (text : Str) (scan : FlowScan) :
    (text.foldl read scan).mode = modeAfter scan.previous scan.mode text := by
  induction text generalizing scan with
  | nil => rfl
  | cons c text ih => rw [List.foldl_cons,ih]; rfl

/-- Where the scanner is in plain text again, it has just read a significant character. -/
theorem foldl_last {text : Str} {c : Char} (scan : FlowScan) (hc : c ∉ whitespace)
    (hmode : modeAfter scan.previous scan.mode (text ++ [c]) = .plain) :
    ((text ++ [c]).foldl read scan).last = scan.index + text.length := by
  rw [← foldl_mode,List.foldl_append] at hmode
  rw [List.foldl_append,← foldl_index]
  generalize text.foldl read scan = behind at hmode ⊢
  obtain ⟨previous,index,last,mode⟩ := behind
  have hline : c ≠ '\n' := by rintro rfl; exact hc (by decide)
  cases mode with
  | comment => simp [read,FlowMode.next,hline] at hmode
  | single => rfl
  | double escaped => rfl
  | plain =>
    have hnote : ¬ (c = '#' ∧ behindSpace previous = true) := by
      rintro ⟨rfl,hb⟩
      simp [read,FlowMode.next,hb] at hmode
    have hskip : skips ⟨previous,index,last,.plain⟩ c = false := by
      simpa [skips,hc] using hnote
    simp [read,hskip]

end FlowScan

/-! Texts in which the scanner meets no bracket. -/

/-- No bracket of the text is one to the scanner. -/
def Quiet : Option Char → FlowMode → Str → Prop
  | _, _, [] => True
  | previous, mode, c :: text =>
    (mode ≠ .plain ∨ c ∉ ['[',']','\x7b','\x7d']) ∧ Quiet (some c) (mode.next previous c) text

theorem quiet_of_not_mem {text : Str} (h : ∀ c ∈ text, c ∉ ['[',']','\x7b','\x7d']) (previous : Option Char)
    (mode : FlowMode) : Quiet previous mode text := by
  induction text generalizing previous mode with
  | nil => trivial
  | cons c text ih =>
    exact ⟨.inr (h c List.mem_cons_self),ih (fun d hd => h d (List.mem_cons_of_mem _ hd)) _ _⟩

theorem passes_of_quiet {start : ℕ} (scan : FlowScan) {text : Str} (hindex : start < scan.index)
    (opened : List Char) (htext : Quiet scan.previous scan.mode text) :
    scan.Passes start opened text (text.foldl FlowScan.read scan) := by
  induction text generalizing scan with
  | nil => intro rest; rfl
  | cons c text ih =>
    have hfirst : scan.Passes start opened [c] (scan.read c) := fun rest =>
      FlowScan.bounds_cons opened rest hindex htext.1
    exact hfirst.append (ih (scan.read c) (Nat.lt_succ_of_lt hindex) htext.2)

theorem exists_passes {start : ℕ} (scan : FlowScan) {text : Str} (hindex : start < scan.index)
    (opened : List Char) (htext : Quiet scan.previous scan.mode text) : ∃ behind last,
    scan.Passes start opened text
      ⟨behind,scan.index + text.length,last,modeAfter scan.previous scan.mode text⟩ := by
  refine ⟨(text.foldl FlowScan.read scan).previous,(text.foldl FlowScan.read scan).last,?_⟩
  rw [← FlowScan.foldl_index,← FlowScan.foldl_mode]
  exact passes_of_quiet scan hindex opened htext

/-- The scanner reads the text without a bracket, from one mode to another. -/
def Runs (previous : Option Char) (mode : FlowMode) (text : Str) (after : FlowMode) : Prop :=
  Quiet previous mode text ∧ modeAfter previous mode text = after

theorem Runs.nil (previous : Option Char) (mode : FlowMode) : Runs previous mode [] mode := ⟨trivial,rfl⟩

theorem Runs.cons {previous : Option Char} {mode after : FlowMode} {c : Char} {text : Str}
    (hc : mode ≠ .plain ∨ c ∉ ['[',']','\x7b','\x7d']) (h : Runs (some c) (mode.next previous c) text after) :
    Runs previous mode (c :: text) after := ⟨⟨hc,h.1⟩,h.2⟩

/-- Behind a text that ends with a significant character the scanner stands right behind that character. -/
theorem passes_of_runs {start index last : ℕ} {previous : Option Char} {text : Str} {c : Char}
    (hindex : start < index) (opened : List Char) (hc : c ∉ whitespace)
    (h : Runs previous .plain (text ++ [c]) .plain) :
    FlowScan.Passes start opened ⟨previous,index,last,.plain⟩ (text ++ [c])
      ⟨some c,index + (text.length + 1),index + text.length,.plain⟩ := by
  have hpasses := passes_of_quiet ⟨previous,index,last,.plain⟩ hindex opened h.1
  have hafter : (text ++ [c]).foldl FlowScan.read ⟨previous,index,last,.plain⟩ =
      ⟨some c,index + (text.length + 1),index + text.length,.plain⟩ := by
    have hprevious := FlowScan.foldl_previous text c ⟨previous,index,last,.plain⟩
    have hindex := FlowScan.foldl_index (text ++ [c]) ⟨previous,index,last,.plain⟩
    have hlast := FlowScan.foldl_last ⟨previous,index,last,.plain⟩ hc h.2
    have hmode := FlowScan.foldl_mode (text ++ [c]) ⟨previous,index,last,.plain⟩
    simp only [h.2,List.length_append,List.length_singleton] at hindex hmode
    exact FlowScan.ext hprevious hindex hlast hmode
  rwa [hafter] at hpasses

theorem runs_single (previous : Option Char) (body : Str) :
    Runs previous .single (body.flatMap (fun c => if c = '\'' then ['\'','\''] else [c]) ++ ['\'']) .plain := by
  induction body generalizing previous with
  | nil => exact .cons (.inl (by simp)) (.nil ..)
  | cons c body ih =>
    rw [List.flatMap_cons]
    by_cases hc : c = '\''
    · rw [if_pos hc]
      exact .cons (.inl (by simp)) (.cons (.inr (by decide)) (ih _))
    · rw [if_neg hc]
      refine .cons (.inl (by simp)) ?_
      simpa [FlowMode.next,hc] using ih (some c)

theorem runs_double (previous : Option Char) (body : List QuotedChar) :
    Runs previous (.double false) (body.flatMap QuotedChar.text ++ ['"']) .plain := by
  induction body generalizing previous with
  | nil => exact .cons (.inl (by simp)) (.nil ..)
  | cons c body ih =>
    rw [List.flatMap_cons]
    cases c with
    | raw c hc =>
      refine .cons (.inl (by simp)) ?_
      simpa [FlowMode.next,hc.1,hc.2] using ih (some c)
    | escaped c => exact .cons (.inl (by simp)) (.cons (.inl (by simp [FlowMode.next])) (ih _))

/-- No plain scalar starts a comment, whatever stands before it. -/
theorem PlainScalar.modeAfter_eq (scalar : PlainScalar) (previous : Option Char) :
    modeAfter previous .plain scalar.text = modeAfter none .plain scalar.text := by
  obtain ⟨c,hc,_,hplain⟩ := scalar.head
  obtain ⟨rest,hrest⟩ := List.head?_eq_some_iff.mp hc
  have hhash : c ≠ '#' := fun h => hplain (by simp [h])
  rw [hrest]
  simp [modeAfter,FlowMode.next,hhash]

theorem PlainScalar.exists_last (scalar : PlainScalar) : ∃ text c, scalar.text = text ++ [c] ∧ c ∉ whitespace := by
  obtain ⟨_,hhead,_⟩ := scalar.head
  have hne : scalar.text ≠ [] := by
    intro h
    simp [h] at hhead
  have hlast := scalar.last _ (List.getLast?_eq_some_getLast hne)
  exact ⟨scalar.text.dropLast,scalar.text.getLast hne,(List.dropLast_append_getLast hne).symm,hlast.1⟩

theorem PlainScalar.quiet (scalar : PlainScalar) (previous : Option Char) (mode : FlowMode) :
    Quiet previous mode scalar.text := by
  refine quiet_of_not_mem (fun c hc hbracket => scalar.inside c hc ?_) previous mode
  simp only [List.mem_cons,List.not_mem_nil,or_false] at hbracket
  obtain rfl | rfl | rfl | rfl := hbracket <;> decide

theorem runs_plain (previous : Option Char) {scalar : PlainScalar} (h : scalar.Settles) :
    Runs previous .plain scalar.text .plain :=
  ⟨scalar.quiet previous .plain,(scalar.modeAfter_eq previous).trans h⟩

theorem runs_comment (previous : Option Char) {text : Str} (htext : '\n' ∉ text) :
    Runs previous .comment text .comment := by
  induction text generalizing previous with
  | nil => exact .nil ..
  | cons c text ih =>
    have hc : c ≠ '\n' := fun h => htext (h ▸ List.mem_cons_self)
    refine .cons (.inl (by simp)) ?_
    simpa [FlowMode.next,hc] using ih (some c) fun h => htext (List.mem_cons_of_mem _ h)

/-- A comment leaves the last significant character where it was. -/
theorem foldl_comment {text : Str} (htext : '\n' ∉ text) (scan : FlowScan) (hmode : scan.mode = .comment) :
    (text.foldl FlowScan.read scan).last = scan.last := by
  induction text generalizing scan with
  | nil => rfl
  | cons c text ih =>
    have hc : c ≠ '\n' := fun h => htext (h ▸ List.mem_cons_self)
    rw [List.foldl_cons,ih (fun h => htext (List.mem_cons_of_mem _ h)) _ (by simp [FlowScan.read,FlowMode.next,hmode,hc])]
    simp [FlowScan.read,FlowScan.skips,hmode]

/-- A comment that ends with a line feed is text without one and the line feed. -/
theorem FlowComment.exists_line {line : FlowComment} (h : line.ending ≠ .cr) :
    ∃ text, line.text = '#' :: (text ++ ['\n']) ∧ '\n' ∉ text := by
  have hbody : '\n' ∉ line.body := fun hmem => (line.oneLine _ hmem).1 rfl
  unfold FlowComment.text
  cases hending : line.ending with
  | lf => exact ⟨line.body,rfl,hbody⟩
  | crlf => exact ⟨line.body ++ ['\r'],by simp [LineBreak.text],by simpa using hbody⟩
  | cr => exact absurd hending h

theorem yamlBlanks_subset : ∀ c ∈ yamlBlanks, c ∈ whitespace := forall_mem_of_all (by decide)

theorem passes_comment {start index last : ℕ} {previous : Char} {line : FlowComment} (hindex : start < index)
    (opened : List Char) (hprevious : previous ∈ yamlBlanks) (h : line.ending ≠ .cr) :
    FlowScan.Passes start opened ⟨some previous,index,last,.plain⟩ line.text
      ⟨some '\n',index + line.text.length,last,.plain⟩ := by
  obtain ⟨text,htext,hline⟩ := line.exists_line h
  have hspace : behindSpace (some previous) = true := by simpa [behindSpace] using yamlBlanks_subset _ hprevious
  have hread : FlowScan.read ⟨some previous,index,last,.plain⟩ '#' = ⟨some '#',index + 1,last,.comment⟩ := by
    simp [FlowScan.read,FlowScan.skips,FlowMode.next,hspace]
  have hfirst : FlowScan.Passes start opened ⟨some previous,index,last,.plain⟩ ['#']
      ⟨some '#',index + 1,last,.comment⟩ := fun rest =>
    hread ▸ FlowScan.bounds_cons opened rest hindex (.inr (by decide))
  have hbody := passes_of_quiet ⟨some '#',index + 1,last,.comment⟩ (Nat.lt_succ_of_lt hindex) opened
    (runs_comment (some '#') hline).1
  have hmode := (FlowScan.foldl_mode text ⟨some '#',index + 1,last,.comment⟩).trans (runs_comment (some '#') hline).2
  have hlast := foldl_comment hline ⟨some '#',index + 1,last,.comment⟩ rfl
  have hbehind := FlowScan.foldl_index text ⟨some '#',index + 1,last,.comment⟩
  generalize text.foldl FlowScan.read ⟨some '#',index + 1,last,.comment⟩ = scan at hbody hmode hlast hbehind
  simp only at hbehind
  have hend : scan.Passes start opened ['\n'] (scan.read '\n') := fun rest =>
    FlowScan.bounds_cons opened rest (by omega) (.inr (by decide))
  have hafter : scan.read '\n' = ⟨some '\n',index + line.text.length,last,.plain⟩ := by
    refine FlowScan.ext rfl ?_ ?_ ?_
    · simp only [FlowScan.read,hbehind,htext,List.length_cons,List.length_append,List.length_nil]
      omega
    · simp [FlowScan.read,FlowScan.skips,hmode,hlast]
    · simp [FlowScan.read,FlowMode.next,hmode]
  rw [hafter] at hend
  rw [htext] at hend ⊢
  exact hfirst.append (hbody.append hend)

theorem passes_blank {start index last : ℕ} {c : Char} (hindex : start < index) (opened : List Char)
    (previous : Option Char) (hc : c ∈ whitespace) :
    FlowScan.Passes start opened ⟨previous,index,last,.plain⟩ [c] ⟨some c,index + 1,last,.plain⟩ := by
  have hplain : ∀ c ∈ whitespace, c ∉ ['#','\'','"','[',']','\x7b','\x7d'] := forall_mem_of_all (by decide)
  have hnot := hplain c hc
  simp only [List.mem_cons,List.not_mem_nil,or_false,not_or] at hnot
  have hread : FlowScan.read ⟨previous,index,last,.plain⟩ c = ⟨some c,index + 1,last,.plain⟩ := by
    simp [FlowScan.read,FlowScan.skips,FlowMode.next,hc,hnot]
  exact fun rest => hread ▸ FlowScan.bounds_cons opened rest hindex (.inr (by simp [hnot]))

/-- The last significant character once the scanner has read a content from the index on. -/
def FlowContent.lastFrom (content : FlowContent) (index last : ℕ) : ℕ :=
  if content.significant = 0 then last else index + content.significant - 1

/-- The scanner reads the content, from wherever it starts behind the character, back into plain text. -/
def FlowContent.Passed (content : FlowContent) (start : ℕ) (opened : List Char) (previous : Char) : Prop :=
  ∀ index last, start < index →
    FlowScan.Passes start opened ⟨some previous,index,last,.plain⟩ content.text
      ⟨some (content.behind previous),index + content.text.length,content.lastFrom index last,.plain⟩

/-- A scalar or a separator in front of a content. -/
theorem passed_significant {content rest : FlowContent} (text : Str) (c : Char) {previous : Char} {start : ℕ}
    {opened : List Char} (htext : content.text = text ++ [c] ++ rest.text)
    (hsignificant : content.significant = text.length + 1 + rest.significant)
    (hbehind : content.behind previous = rest.behind c) (hc : c ∉ whitespace)
    (hruns : Runs (some previous) .plain (text ++ [c]) .plain) (hrest : rest.Passed start opened c) :
    content.Passed start opened previous := by
  intro index last hindex
  rw [htext,hbehind]
  refine (passes_of_runs hindex opened hc hruns).append_of_eq
    (hrest (index + (text.length + 1)) (index + text.length) (by omega)) ?_ ?_
  · simp only [List.length_append,List.length_singleton]
    omega
  · simp only [FlowContent.lastFrom,hsignificant]
    split_ifs <;> omega

/-- Behind a content whose scalars settle the scanner stands in plain text, with the same collections open. -/
theorem passed_of_settled (content : FlowContent) {start : ℕ} {previous : Char} {opened : List Char}
    (hopened : opened ≠ []) (hform : content.wellFormed previous) (hsettled : content.Settled) :
    content.Passed start opened previous := by
  induction content generalizing previous opened with
  | done => exact fun index last _ rest => rfl
  | blank c hc rest ih =>
    intro index last hindex
    refine (passes_blank hindex opened (some previous) hc).append_of_eq
      (ih hopened hform hsettled (index + 1) last (by omega)) ?_ ?_
    · simp only [FlowContent.text,List.length_cons]
      omega
    · simp only [FlowContent.lastFrom,FlowContent.significant]
      split_ifs <;> omega
  | comment line rest ih =>
    intro index last hindex
    refine (passes_comment hindex opened hform.1 hsettled.1).append_of_eq
      (ih hopened hform.2.2 hsettled.2 (index + line.text.length) last (by omega)) ?_ ?_
    · simp only [FlowContent.text,List.length_append]
      omega
    · simp only [FlowContent.lastFrom,FlowContent.significant]
      split_ifs <;> omega
  | comma rest ih =>
    refine passed_significant [] ',' rfl ?_ rfl (by decide) ?_ (ih hopened hform hsettled)
    · simp [FlowContent.significant]
    · exact .cons (.inr (by decide)) (.nil ..)
  | colon rest ih =>
    refine passed_significant [] ':' rfl ?_ rfl (by decide) ?_ (ih hopened hform.2 hsettled)
    · simp [FlowContent.significant]
    · exact .cons (.inr (by decide)) (.nil ..)
  | plain scalar rest ih =>
    obtain ⟨text,c,htext,hc⟩ := scalar.exists_last
    have hlast : scalar.text.getLast?.getD previous = c := by simp [htext]
    refine passed_significant text c ?_ ?_ ?_ hc ?_ (ih hopened (hlast ▸ hform.2) hsettled.2)
    · rw [← htext]; rfl
    · simp [FlowContent.significant,htext]
    · rw [FlowContent.behind,hlast]
    · exact htext ▸ runs_plain (some previous) hsettled.1
  | single body rest ih =>
    refine passed_significant ('\'' :: body.flatMap fun c => if c = '\'' then ['\'','\''] else [c])
      '\'' rfl ?_ rfl (by decide) ?_ (ih hopened hform.2 hsettled)
    · simp [FlowContent.significant,singleText]
    · exact .cons (.inr (by decide)) (runs_single ..)
  | double body rest ih =>
    refine passed_significant ('"' :: body.flatMap QuotedChar.text) '"' rfl ?_ rfl (by decide) ?_
      (ih hopened hform.2 hsettled)
    · simp [FlowContent.significant,doubleText]
    · exact .cons (.inr (by decide)) (runs_double ..)
  | collection bracket inner rest ihInner ihRest =>
    intro index last hindex
    have hinner := ihInner (List.cons_ne_nil bracket.opening opened) hform.2.1 hsettled.1
      (index + 1) index (by omega)
    have hrest := ihRest hopened hform.2.2 hsettled.2 (index + 1 + inner.text.length + 1)
      (index + 1 + inner.text.length) (by omega)
    have hcollection : FlowScan.Passes start opened ⟨some previous,index,last,.plain⟩
        (bracket.opening :: (inner.text ++ [bracket.closing]))
        ⟨some bracket.closing,index + 1 + inner.text.length + 1,index + 1 + inner.text.length,.plain⟩ := by
      intro text
      rw [List.cons_append,List.append_assoc,FlowScan.bounds_opening,hinner,List.singleton_append,
        FlowScan.bounds_closing]
      simp [hopened]
    have htext : (FlowContent.collection bracket inner rest).text =
        bracket.opening :: (inner.text ++ [bracket.closing]) ++ rest.text := by simp [FlowContent.text]
    rw [htext]
    refine hcollection.append_of_eq hrest ?_ ?_
    · simp only [List.cons_append,List.length_cons,List.length_append,List.length_nil]
      omega
    · have hpositive : (FlowContent.collection bracket inner rest).significant ≠ 0 := by
        simp only [FlowContent.significant]
        omega
      simp only [FlowContent.lastFrom,if_neg hpositive]
      simp only [FlowContent.significant]
      split_ifs <;> omega

/-- The scanner finds the end of the collection in the source, and its last significant character. -/
def FlowContent.Found (content : FlowContent) (bracket : FlowBracket) (before after : Str) : Prop :=
  flowCollectionBounds (before ++ bracket.opening :: (content.text ++ bracket.closing :: after)) before.length =
    .ok (before.length + content.text.length + 2,before.length + content.significant)

theorem flowCollectionBounds_eq (bracket : FlowBracket) (before text : Str) :
    flowCollectionBounds (before ++ bracket.opening :: text) before.length =
      (⟨some bracket.opening,before.length + 1,before.length,.plain⟩ : FlowScan).bounds before.length
        [bracket.opening] text := by
  unfold flowCollectionBounds
  rw [List.drop_left]
  exact FlowScan.bounds_opening before.length before.length none before.length [] bracket text

/-- Where the scanner is in plain text in front of the closing bracket, it finds it. -/
theorem found_of_passes {content : FlowContent} {bracket : FlowBracket} {before after : Str} {behind : Option Char}
    (hpasses : FlowScan.Passes before.length [bracket.opening]
      ⟨some bracket.opening,before.length + 1,before.length,.plain⟩ content.text
      ⟨behind,before.length + 1 + content.text.length,before.length + content.significant,.plain⟩) :
    content.Found bracket before after := by
  unfold FlowContent.Found
  rw [flowCollectionBounds_eq,hpasses,FlowScan.bounds_closing,closes_bracket]
  simp only [Bool.not_true,Bool.false_eq_true,if_false,if_true]
  congr 2
  omega

/-- Where it is not, it misses it. -/
theorem plain_of_found {content : FlowContent} {bracket : FlowBracket} {before after : Str} {behind : Option Char}
    {last : ℕ} {mode : FlowMode}
    (hpasses : FlowScan.Passes before.length [bracket.opening]
      ⟨some bracket.opening,before.length + 1,before.length,.plain⟩ content.text
      ⟨behind,before.length + 1 + content.text.length,last,mode⟩)
    (h : content.Found bracket before after) : mode = .plain := by
  by_contra hmode
  have hindex : before.length < before.length + 1 + content.text.length := by omega
  unfold FlowContent.Found at h
  rw [flowCollectionBounds_eq,hpasses,FlowScan.bounds_cons _ _ hindex (.inl hmode)] at h
  have := FlowScan.index_lt_of_bounds (Nat.lt_succ_of_lt hindex) h
  simp only [FlowScan.read] at this
  omega

theorem found_of_settled {content : FlowContent} {bracket : FlowBracket} (before after : Str)
    (hform : content.wellFormed bracket.opening) (hsettled : content.Settled) : content.Found bracket before after := by
  have hpasses := passed_of_settled content (List.cons_ne_nil bracket.opening []) hform hsettled
    (before.length + 1) before.length (Nat.lt_succ_self _)
  have hlast : content.lastFrom (before.length + 1) before.length = before.length + content.significant := by
    unfold FlowContent.lastFrom
    split_ifs <;> omega
  exact found_of_passes (hlast ▸ hpasses)

/-- The content with another one behind it. -/
def FlowContent.followedBy : FlowContent → FlowContent → FlowContent
  | .done, tail => tail
  | .blank c space rest, tail => .blank c space (rest.followedBy tail)
  | .comment line rest, tail => .comment line (rest.followedBy tail)
  | .comma rest, tail => .comma (rest.followedBy tail)
  | .colon rest, tail => .colon (rest.followedBy tail)
  | .plain scalar rest, tail => .plain scalar (rest.followedBy tail)
  | .single body rest, tail => .single body (rest.followedBy tail)
  | .double body rest, tail => .double body (rest.followedBy tail)
  | .collection bracket inner rest, tail => .collection bracket inner (rest.followedBy tail)

theorem text_followedBy (content tail : FlowContent) : (content.followedBy tail).text = content.text ++ tail.text := by
  induction content with
  | done => rfl
  | _ => simp_all [FlowContent.followedBy,FlowContent.text]

theorem significant_le_length (content : FlowContent) : content.significant ≤ content.text.length := by
  induction content with
  | done => exact Nat.le_refl _
  | blank _ _ _ ih =>
    simp only [FlowContent.significant,FlowContent.text,List.length_cons]
    split_ifs <;> omega
  | comment _ _ ih =>
    simp only [FlowContent.significant,FlowContent.text,List.length_append]
    split_ifs <;> omega
  | _ =>
    simp only [FlowContent.significant,FlowContent.text,List.length_cons,List.length_append]
    omega

theorem settled_followedBy (content tail : FlowContent) :
    (content.followedBy tail).Settled ↔ content.Settled ∧ tail.Settled := by
  induction content with
  | done => simp [FlowContent.followedBy,FlowContent.Settled]
  | _ => simp_all [FlowContent.followedBy,FlowContent.Settled,and_assoc]

theorem mem_head?_append {first second : Str} {c : Char} (h : c ∈ first.head?) : c ∈ (first ++ second).head? := by
  cases first with
  | nil => simp at h
  | cons d first => exact h

theorem wellFormed_followedBy {content tail : FlowContent} {previous : Char}
    (h : (content.followedBy tail).wellFormed previous) :
    content.wellFormed previous ∧ tail.wellFormed (content.behind previous) := by
  induction content generalizing previous with
  | done => exact ⟨trivial,h⟩
  | blank _ _ _ ih => exact ih h
  | comma _ ih => exact ih h
  | comment line rest ih => 
    rw [FlowContent.followedBy,FlowContent.wellFormed,text_followedBy] at h
    obtain ⟨hrest,htail⟩ := ih h.2.2
    refine ⟨⟨h.1,fun hcr hhead => h.2.1 hcr (mem_head?_append hhead),hrest⟩,htail⟩
  | colon rest ih =>
    rw [FlowContent.followedBy,FlowContent.wellFormed,text_followedBy] at h
    obtain ⟨hrest,htail⟩ := ih h.2
    exact ⟨⟨h.1.imp_right fun hall c hc => hall c (mem_head?_append hc),hrest⟩,htail⟩
  | plain scalar rest ih =>
    obtain ⟨hrest,htail⟩ := ih h.2
    exact ⟨⟨h.1,hrest⟩,htail⟩
  | single body rest ih =>
    obtain ⟨hrest,htail⟩ := ih h.2
    exact ⟨⟨h.1,hrest⟩,htail⟩
  | double body rest ih =>
    obtain ⟨hrest,htail⟩ := ih h.2
    exact ⟨⟨h.1,hrest⟩,htail⟩
  | collection bracket inner rest _ ih =>
    obtain ⟨hrest,htail⟩ := ih h.2.2
    exact ⟨⟨h.1,h.2.1,hrest⟩,htail⟩

/-- A single plain scalar or comment. -/
inductive FlowContent.Leaf : FlowContent → Prop
  | plain (scalar : PlainScalar) : Leaf (.plain scalar .done)
  | comment (line : FlowComment) : Leaf (.comment line .done)

theorem mode_of_found_leaf {content leaf : FlowContent} {bracket : FlowBracket} {before after : Str}
    (hform : content.wellFormed bracket.opening) (hsettled : content.Settled)
    (hleaf : Quiet (some (content.behind bracket.opening)) .plain leaf.text)
    (h : (content.followedBy leaf).Found bracket before after) :
    modeAfter (some (content.behind bracket.opening)) .plain leaf.text = .plain := by
  have hindex : before.length < before.length + 1 + content.text.length := by omega
  have hcontent := passed_of_settled content (List.cons_ne_nil bracket.opening []) hform hsettled
    (before.length + 1) before.length (Nat.lt_succ_self _)
  obtain ⟨_,_,hpasses⟩ := exists_passes
    ⟨some (content.behind bracket.opening),before.length + 1 + content.text.length,
      content.lastFrom (before.length + 1) before.length,.plain⟩ hindex [bracket.opening] hleaf
  have hlength : before.length + 1 + content.text.length + leaf.text.length =
      before.length + 1 + (content.followedBy leaf).text.length := by
    rw [text_followedBy,List.length_append]
    omega
  have hall := hcontent.append_of_eq hpasses hlength rfl
  rw [← text_followedBy] at hall
  exact plain_of_found hall h

/-- In front of the closing bracket, a plain scalar or a comment that does not settle hides it. -/
theorem settled_of_found_leaf {content leaf : FlowContent} {bracket : FlowBracket} {before after : Str}
    (hleaf : leaf.Leaf) (hform : (content.followedBy leaf).wellFormed bracket.opening) (hsettled : content.Settled)
    (h : (content.followedBy leaf).Found bracket before after) : leaf.Settled := by
  obtain ⟨hcontent,hbehind⟩ := wellFormed_followedBy hform
  cases hleaf with
  | plain scalar =>
    have htext : (FlowContent.plain scalar .done).text = scalar.text := List.append_nil _
    have hmode := mode_of_found_leaf hcontent hsettled (htext ▸ scalar.quiet _ _) h
    rw [htext,scalar.modeAfter_eq] at hmode
    exact ⟨hmode,trivial⟩
  | comment line =>
    refine ⟨fun hcr => ?_,trivial⟩
    have hspace : behindSpace (some (content.behind bracket.opening)) = true := by
      simpa [behindSpace] using yamlBlanks_subset _ hbehind.1
    have hline : '\n' ∉ line.body ++ ['\r'] := by
      intro hmem
      obtain hbody | hend := List.mem_append.mp hmem
      · exact (line.oneLine _ hbody).1 rfl
      · simp at hend
    have hruns : Runs (some (content.behind bracket.opening)) .plain ('#' :: (line.body ++ ['\r'])) .comment := by
      refine .cons (.inr (by decide)) ?_
      simpa [FlowMode.next,hspace] using runs_comment (some '#') hline
    have htext : (FlowContent.comment line .done).text = '#' :: (line.body ++ ['\r']) := by
      simp [FlowContent.text,FlowComment.text,hcr,LineBreak.text]
    have hmode := mode_of_found_leaf hcontent hsettled (htext ▸ hruns.1) h
    rw [htext,hruns.2] at hmode
    cases hmode

/-- The end of a well-formed flow collection whose scalars and comments settle is found, and its last
significant character; and where everything in front of the last scalar or comment settles, they are found
only when that one settles as well. -/
theorem flow_collection_found (bracket : FlowBracket) (content : FlowContent) (before after : Str) :
    (content.wellFormed bracket.opening → content.Settled → content.Found bracket before after) ∧
      ∀ leaf : FlowContent, leaf.Leaf → (content.followedBy leaf).wellFormed bracket.opening → content.Settled →
        ((content.followedBy leaf).Found bracket before after ↔ leaf.Settled) := by
  refine ⟨fun hform hsettled => found_of_settled before after hform hsettled,fun leaf hleaf hform hsettled => ?_⟩
  refine ⟨settled_of_found_leaf hleaf hform hsettled,fun h => ?_⟩
  exact found_of_settled before after hform ((settled_followedBy content leaf).mpr ⟨hsettled,h⟩)

namespace Example

/-- The content `'a]', ` of a sequence. -/
def quotedContent : FlowContent :=
  .single "a]".toList (.comma (.blank ' ' (by decide) .done))

def rockScalar : PlainScalar where
  text := "title=rock'n'roll#1".toList
  head := ⟨'t',rfl,by decide,by decide⟩
  inside := forall_mem_of_all (by decide)
  noComment := by decide
  last := by
    intro c hc
    obtain rfl : '1' = c := Option.some.inj hc
    decide

/-- The collection `['a]', title=rock'n'roll#1]` is found. -/
theorem rock_found : quotedContent.Found .square [] [] ∧
    (quotedContent.followedBy (.plain rockScalar .done)).Found .square [] [] := by
  have hspace : ' ' ∈ yamlBlanks := by decide
  have hopening : '[' ∈ yamlBlanks ++ ['[','\x7b',',',':'] := by decide
  have hquoted : quotedContent.wellFormed FlowBracket.square.opening := ⟨hopening,trivial⟩
  have hform : (quotedContent.followedBy (.plain rockScalar .done)).wellFormed FlowBracket.square.opening :=
    ⟨hopening,List.mem_append_left _ hspace,trivial⟩
  have hsettles : rockScalar.Settles := by
    unfold PlainScalar.Settles
    decide
  have hfound := flow_collection_found .square quotedContent [] []
  exact ⟨hfound.1 hquoted trivial,(hfound.2 _ (.plain rockScalar) hform trivial).mpr ⟨hsettles,trivial⟩⟩

def itsScalar : PlainScalar where
  text := "note=it's".toList
  head := ⟨'n',rfl,by decide,by decide⟩
  inside := forall_mem_of_all (by decide)
  noComment := by decide
  last := by
    intro c hc
    obtain rfl : 's' = c := Option.some.inj hc
    decide

/-- The scanner takes the apostrophe of the collection `[note=it's]` for a quote. -/
theorem its_not_found : (FlowContent.plain itsScalar .done).wellFormed FlowBracket.square.opening ∧
    flowCollectionBounds "[note=it's]".toList 0 = refuse "Service labels use an unterminated flow collection." ∧
    ¬ (FlowContent.plain itsScalar .done).Found .square [] [] := by
  have hbounds : flowCollectionBounds "[note=it's]".toList 0 =
      refuse "Service labels use an unterminated flow collection." := by decide +kernel
  have hopening : '[' ∈ yamlBlanks ++ ['[','\x7b',',',':'] := by decide
  refine ⟨⟨hopening,trivial⟩,hbounds,fun h => ?_⟩
  have hsource : [] ++ FlowBracket.square.opening ::
      ((FlowContent.plain itsScalar .done).text ++ FlowBracket.square.closing :: []) = "[note=it's]".toList := by
    decide +kernel
  unfold FlowContent.Found at h
  rw [hsource] at h
  exact absurd (hbounds.symm.trans h) (by simp [refuse])

end Example

end Wudup

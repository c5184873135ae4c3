import Mathlib.Data.List.Basic
import Mathlib.Data.List.Infix
import Mathlib.Data.List.TakeWhile
import Mathlib.Data.Nat.Notation
import Wudup.Library.Text

/-! The scalars of YAML that are not block scalars: plain ones, and those in single or double quotes. The
indentation of their lines is left out. -/
namespace Library
namespace Yaml

/-! Characters. -/

def isBlank (c : Char) : Bool := c = ' ' || c = '\t'

def isBreak (c : Char) : Bool := c = '\n' || c = '\r'

def indicators : List Char :=
  ['-','?',':',',','[',']','\x7b','\x7d','#','&','*','!','|','>','\'','"','%','@','\x60']

def flowIndicators : List Char := [',','[',']','\x7b','\x7d']

/-- Printable characters other than white space. -/
def nsChar (c : Char) : Bool :=
  (0x21 ≤ c.toNat && c.toNat ≤ 0x7E) || c.toNat = 0x85 ||
    (0xA0 ≤ c.toNat && c.toNat ≤ 0xFFFD && c.toNat ≠ 0xFEFF) || 0x10000 ≤ c.toNat

/-- Characters of quoted scalars. -/
def jsonChar (c : Char) : Bool := c = '\t' || 0x20 ≤ c.toNat

def plainSafe (flow : Bool) (c : Char) : Bool := nsChar c && !(flow && flowIndicators.contains c)

/-- The text behind the line break that it starts with. -/
def afterBreak : List Char → Option (List Char)
  | '\r' :: '\n' :: rest => some rest
  | '\n' :: rest => some rest
  | '\r' :: rest => some rest
  | _ => none

/-! Lines that are folded. -/

/-- The empty lines at the start of a text, and what is behind them without its blanks. -/
inductive EmptyLines : List Char → ℕ → List Char → Prop
  | done {text : List Char} : afterBreak (text.dropWhile isBlank) = none → EmptyLines text 0 (text.dropWhile isBlank)
  | line {text next rest : List Char} {n : ℕ} : afterBreak (text.dropWhile isBlank) = some next →
      EmptyLines next n rest → EmptyLines text (n + 1) rest

/-- What a line break stands for: a space, or the line feeds of the empty lines behind it. -/
def foldedText (emptyLines : ℕ) : List Char := if emptyLines = 0 then [' '] else List.replicate emptyLines '\n'

/-- The end of a line and the start of the next, what they stand for, and the text behind. -/
def LineFold (text value rest : List Char) : Prop :=
  ∃ next n, afterBreak (text.dropWhile isBlank) = some next ∧ EmptyLines next n rest ∧ value = foldedText n

/-! Plain scalars. -/

/-- What may start a plain scalar, in front of the rest of its line. -/
def PlainFirst (flow : Bool) (c : Char) (rest : List Char) : Prop :=
  (nsChar c = true ∧ c ∉ indicators) ∨ (c ∈ ['?',':','-'] ∧ ∃ d ∈ rest.head?, plainSafe flow d = true)

/-- A line of a plain scalar behind a character: it has no `#` behind white space, and behind a `:` more of
the scalar. -/
def PlainFrom (flow : Bool) : Char → List Char → Prop
  | before, [] => isBlank before = false
  | before, c :: rest =>
    (isBlank c = true ∨ (c = '#' ∧ nsChar before = true) ∨ (c = ':' ∧ ∃ d ∈ rest.head?, plainSafe flow d = true) ∨
      (c ≠ '#' ∧ c ≠ ':' ∧ plainSafe flow c = true)) ∧ PlainFrom flow c rest

/-- The further lines of a plain scalar, and what they stand for. -/
inductive PlainLines (flow : Bool) : List Char → List Char → Prop
  | done : PlainLines flow [] []
  | line {text fold rest value : List Char} {c : Char} {line : List Char} :
      LineFold text fold (c :: line ++ rest) → isBlank c = false → PlainFrom flow '\n' (c :: line) →
      PlainLines flow rest value → PlainLines flow text (fold ++ (c :: line ++ value))

/-! Quoted scalars. -/

/-- Between single quotes, where two quotes stand for one. -/
inductive SingleBody : List Char → List Char → Prop
  | done : SingleBody [] []
  | quote {text value : List Char} : SingleBody text value → SingleBody ('\'' :: '\'' :: text) ('\'' :: value)
  | raw {text value : List Char} {c : Char} : c ≠ '\'' → isBreak c = false → jsonChar c = true →
      (isBlank c = true → afterBreak (text.dropWhile isBlank) = none) → SingleBody text value →
      SingleBody (c :: text) (c :: value)
  | fold {text fold rest value : List Char} : LineFold text fold rest → SingleBody rest value →
      SingleBody text (fold ++ value)

/-- The characters that stand for others behind a backslash. -/
def escaped : List (Char × Char) :=
  [('0','\x00'),('a','\x07'),('b','\x08'),('t','\t'),('\t','\t'),('n','\n'),('v','\x0B'),('f','\x0C'),('r','\r'),
    ('e','\x1B'),(' ',' '),('"','"'),('/','/'),('\\','\\'),('N','\u0085'),('_','\u00A0'),('L','\u2028'),
    ('P','\u2029')]

/-- How many digits follow. -/
def hexWidths : List (Char × ℕ) := [('x',2),('u',4),('U',8)]

def hexDigit (c : Char) : Option ℕ :=
  if c.isDigit then some (c.toNat - 48)
  else if 'a' ≤ c ∧ c ≤ 'f' then some (c.toNat - 87)
  else if 'A' ≤ c ∧ c ≤ 'F' then some (c.toNat - 55)
  else none

def hexNumber (digits : List Char) : ℕ := digits.foldl (fun n c => 16 * n + (hexDigit c).getD 0) 0

/-- Between double quotes, with the escapes. -/
inductive DoubleBody : List Char → List Char → Prop
  | done : DoubleBody [] []
  | raw {text value : List Char} {c : Char} : c ≠ '"' → c ≠ '\\' → isBreak c = false → jsonChar c = true →
      (isBlank c = true → afterBreak (text.dropWhile isBlank) = none) → DoubleBody text value →
      DoubleBody (c :: text) (c :: value)
  | escape {text value : List Char} {code c : Char} : (code,c) ∈ escaped → DoubleBody text value →
      DoubleBody ('\\' :: code :: text) (c :: value)
  | hex {digits text value : List Char} {mark : Char} : (mark,digits.length) ∈ hexWidths →
      (∀ d ∈ digits, (hexDigit d).isSome = true) → (hexNumber digits).isValidChar → DoubleBody text value →
      DoubleBody ('\\' :: mark :: (digits ++ text)) (Char.ofNat (hexNumber digits) :: value)
  | fold {text fold rest value : List Char} : LineFold text fold rest → DoubleBody rest value →
      DoubleBody text (fold ++ value)
  | joined {text next rest value : List Char} {n : ℕ} : afterBreak text = some next → EmptyLines next n rest →
      DoubleBody rest value → DoubleBody ('\\' :: text) (List.replicate n '\n' ++ value)

/-- The text of a scalar and its value, in a flow collection or outside. -/
inductive Scalar (flow : Bool) : List Char → List Char → Prop
  | plain {c : Char} {line rest value : List Char} : PlainFirst flow c line → PlainFrom flow c line →
      PlainLines flow rest value → Scalar flow (c :: line ++ rest) (c :: line ++ value)
  | single {body value : List Char} : SingleBody body value → Scalar flow ('\'' :: (body ++ ['\''])) value
  | double {body value : List Char} : DoubleBody body value → Scalar flow ('"' :: (body ++ ['"'])) value

/-- The plain scalars that the core schema reads as something else than text; a number may lack its digits. -/
inductive CoreValue : List Char → Prop
  | null {text : List Char} : text ∈ ["".toList,"~".toList,"null".toList,"Null".toList,"NULL".toList] → CoreValue text
  | bool {text : List Char} :
      text ∈ ["true".toList,"True".toList,"TRUE".toList,"false".toList,"False".toList,"FALSE".toList] → CoreValue text
  | octal {digits : List Char} : (∀ d ∈ digits, d ∈ "01234567".toList) → CoreValue ('0' :: 'o' :: digits)
  | hexadecimal {digits : List Char} : (∀ d ∈ digits, (hexDigit d).isSome = true) → CoreValue ('0' :: 'x' :: digits)
  | number {sign whole fraction exponent : List Char} : sign ∈ [[],['+'],['-']] → (∀ d ∈ whole, d.isDigit = true) →
      (fraction = [] ∨ ∃ digits, fraction = '.' :: digits ∧ ∀ d ∈ digits, d.isDigit = true) →
      (exponent = [] ∨ ∃ e sign digits, exponent = e :: (sign ++ digits) ∧ e ∈ ['e','E'] ∧
        sign ∈ [[],['+'],['-']] ∧ ∀ d ∈ digits, d.isDigit = true) →
      CoreValue (sign ++ (whole ++ (fraction ++ exponent)))
  | infinite {sign text : List Char} : sign ∈ [[],['+'],['-']] →
      text ∈ [".inf".toList,".Inf".toList,".INF".toList] → CoreValue (sign ++ text)
  | nan {text : List Char} : text ∈ [".nan".toList,".NaN".toList,".NAN".toList] → CoreValue text

/-! What is folded. -/

def isSpace (c : Char) : Bool := isBlank c || isBreak c

theorem isBreak_of_isBlank {c : Char} (h : isBlank c = true) : isBreak c = false := by
  simp only [isBlank,Bool.or_eq_true,decide_eq_true_eq] at h
  obtain rfl | rfl := h <;> rfl

theorem eq_of_afterBreak {text rest : List Char} (h : afterBreak text = some rest) :
    ∃ c gap, text = c :: (gap ++ rest) ∧ isBreak c = true ∧ ∀ d ∈ gap, isSpace d = true := by
  unfold afterBreak at h
  split at h
  · cases h
    exact ⟨'\r',['\n'],rfl,rfl,by simp [isSpace,isBreak]⟩
  · cases h
    exact ⟨'\n',[],rfl,rfl,by simp⟩
  · cases h
    exact ⟨'\r',[],rfl,rfl,by simp⟩
  · cases h

theorem afterBreak_eq_none {text : List Char} (h : ∀ c ∈ text, isBreak c = false) :
    afterBreak (text.dropWhile isBlank) = none := by
  cases hafter : afterBreak (text.dropWhile isBlank) with
  | none => rfl
  | some rest =>
    obtain ⟨c,gap,htext,hc,-⟩ := eq_of_afterBreak hafter
    have hmem : c ∈ text := (List.dropWhile_suffix isBlank).subset (by rw [htext]; exact List.mem_cons_self)
    rw [h c hmem] at hc
    cases hc

theorem EmptyLines.eq {text rest : List Char} {n : ℕ} (h : EmptyLines text n rest) :
    ∃ gap, text = gap ++ rest ∧ n ≤ gap.length ∧ ∀ c ∈ gap, isSpace c = true := by
  have hblank (text : List Char) : ∀ c ∈ text.takeWhile isBlank, isSpace c = true := by
    intro c hc
    simp [isSpace,List.mem_takeWhile_imp hc]
  induction h with
  | @done text _ => exact ⟨text.takeWhile isBlank,List.takeWhile_append_dropWhile.symm,Nat.zero_le _,hblank text⟩
  | @line text next rest n hnext _ ih =>
    obtain ⟨gap,rfl,hn,hgap⟩ := ih
    obtain ⟨c,space,htext,hc,hspace⟩ := eq_of_afterBreak hnext
    refine ⟨text.takeWhile isBlank ++ c :: (space ++ gap),?_,?_,?_⟩
    · conv_lhs => rw [← @List.takeWhile_append_dropWhile _ isBlank text,htext]
      simp
    · simp only [List.length_append,List.length_cons]
      omega
    · intro d hd
      simp only [List.mem_append,List.mem_cons] at hd
      obtain hd | rfl | hd | hd := hd
      · exact hblank text d hd
      · simp [isSpace,hc]
      · exact hspace d hd
      · exact hgap d hd

/-- A fold starts with blanks and a line break, and stands for a space where it stands for no line feed. -/
theorem LineFold.eq {text value rest : List Char} (h : LineFold text value rest) :
    ∃ blanks c gap, text = blanks ++ c :: (gap ++ rest) ∧ (∀ d ∈ blanks, isBlank d = true) ∧ isBreak c = true ∧
      (∀ d ∈ gap, isSpace d = true) ∧ value.length ≤ gap.length + 1 ∧
      (value = [' '] ∨ ∃ n, value = List.replicate (n + 1) '\n') := by
  obtain ⟨next,n,hnext,hempty,rfl⟩ := h
  obtain ⟨gap,rfl,hn,hgap⟩ := hempty.eq
  obtain ⟨c,space,htext,hc,hspace⟩ := eq_of_afterBreak hnext
  refine ⟨text.takeWhile isBlank,c,space ++ gap,?_,fun d hd => List.mem_takeWhile_imp hd,hc,?_,?_,?_⟩
  · conv_lhs => rw [← @List.takeWhile_append_dropWhile _ isBlank text,htext]
    simp
  · intro d hd
    exact (List.mem_append.mp hd).elim (hspace d) (hgap d)
  · rw [foldedText,List.length_append]
    split
    · exact Nat.le_add_left _ _
    · rw [List.length_replicate]
      omega
  · rw [foldedText]
    split
    · exact .inl rfl
    next hzero =>
      obtain ⟨k,rfl⟩ := Nat.exists_eq_succ_of_ne_zero hzero
      exact .inr ⟨k,rfl⟩

/-! A scalar in double quotes is at least as long as its value. -/

theorem DoubleBody.length_le {body value : List Char} (h : DoubleBody body value) : value.length ≤ body.length := by
  induction h with
  | done => exact Nat.le_refl _
  | raw _ _ _ _ _ _ ih => exact Nat.succ_le_succ ih
  | escape _ _ ih => exact Nat.succ_le_succ (Nat.le_succ_of_le ih)
  | hex _ _ _ _ ih =>
    simp only [List.length_cons,List.length_append]
    omega
  | fold hfold _ ih =>
    obtain ⟨blanks,c,gap,rfl,-,-,-,hlength,-⟩ := hfold.eq
    simp only [List.length_cons,List.length_append]
    omega
  | joined hafter hempty _ ih =>
    obtain ⟨c,space,rfl,-,-⟩ := eq_of_afterBreak hafter
    obtain ⟨gap,rfl,hn,-⟩ := hempty.eq
    simp only [List.length_cons,List.length_append,List.length_replicate]
    omega

/-! Values as they are written between quotes. -/

def singleInner (value : List Char) : List Char := value.flatMap fun c => if c = '\'' then ['\'','\''] else [c]

def doubleInner (value : List Char) : List Char := value.flatMap fun c => if c = '\\' || c = '"' then ['\\',c] else [c]

theorem singleInner_quote (value : List Char) : singleInner ('\'' :: value) = '\'' :: '\'' :: singleInner value := rfl

theorem singleInner_raw {c : Char} (h : c ≠ '\'') (value : List Char) :
    singleInner (c :: value) = c :: singleInner value := by
  rw [singleInner,List.flatMap_cons,if_neg h]
  rfl

theorem doubleInner_escape {c : Char} (h : c = '\\' ∨ c = '"') (value : List Char) :
    doubleInner (c :: value) = '\\' :: c :: doubleInner value := by
  rw [doubleInner,List.flatMap_cons,if_pos (by simpa using h)]
  rfl

theorem doubleInner_raw {c : Char} (h : ¬ (c = '\\' ∨ c = '"')) (value : List Char) :
    doubleInner (c :: value) = c :: doubleInner value := by
  rw [doubleInner,List.flatMap_cons,if_neg (by simpa using h)]
  rfl

theorem length_le_singleInner (value : List Char) : value.length ≤ (singleInner value).length := by
  induction value with
  | nil => exact Nat.le_refl _
  | cons c rest ih =>
    by_cases hc : c = '\''
    · subst hc
      exact Nat.succ_le_succ (Nat.le_succ_of_le ih)
    · rw [singleInner_raw hc]
      exact Nat.succ_le_succ ih

theorem mem_singleInner {c : Char} {value : List Char} : c ∈ singleInner value ↔ c ∈ value := by
  induction value with
  | nil => exact Iff.rfl
  | cons d rest ih =>
    by_cases hd : d = '\''
    · subst hd
      simp [singleInner_quote,ih]
    · simp [singleInner_raw hd,ih]

theorem mem_doubleInner {c : Char} {value : List Char} (h : c ∈ doubleInner value) : c = '\\' ∨ c ∈ value := by
  induction value with
  | nil => cases h
  | cons d rest ih =>
    by_cases hd : d = '\\' ∨ d = '"'
    · rw [doubleInner_escape hd] at h
      simp only [List.mem_cons] at h ⊢
      obtain h | h | h := h
      · exact .inl h
      · exact .inr (.inl h)
      · exact (ih h).imp_right .inr
    · rw [doubleInner_raw hd] at h
      simp only [List.mem_cons] at h ⊢
      exact h.elim (fun h => .inr (.inl h)) fun h => (ih h).imp_right .inr

section
variable {value : List Char} (hline : ∀ c ∈ value, isBreak c = false) (hjson : ∀ c ∈ value, jsonChar c = true)
include hline hjson

theorem singleBody_singleInner : SingleBody (singleInner value) value := by
  induction value with
  | nil => exact .done
  | cons c rest ih =>
    rw [List.forall_mem_cons] at hline hjson
    have hrest := ih hline.2 hjson.2
    by_cases hc : c = '\''
    · subst hc
      exact .quote hrest
    · rw [singleInner_raw hc]
      exact .raw hc hline.1 hjson.1 (fun _ => afterBreak_eq_none fun d hd => hline.2 d (mem_singleInner.mp hd)) hrest

theorem doubleBody_doubleInner : DoubleBody (doubleInner value) value := by
  induction value with
  | nil => exact .done
  | cons c rest ih =>
    rw [List.forall_mem_cons] at hline hjson
    have hrest := ih hline.2 hjson.2
    by_cases hc : c = '\\' ∨ c = '"'
    · rw [doubleInner_escape hc]
      refine .escape ?_ hrest
      obtain rfl | rfl := hc <;> decide
    · rw [doubleInner_raw hc]
      have hfree : ∀ d ∈ doubleInner rest, isBreak d = false := by
        intro d hd
        obtain rfl | hd := mem_doubleInner hd
        · rfl
        · exact hline.2 d hd
      rw [not_or] at hc
      exact .raw hc.2 hc.1 hline.1 hjson.1 (fun _ => afterBreak_eq_none hfree) hrest

end

/-! Where a quoted scalar ends. -/

/-- The text behind the closing single quote. -/
def afterSingle : List Char → Option (List Char)
  | '\'' :: '\'' :: rest => afterSingle rest
  | '\'' :: rest => some rest
  | _ :: rest => afterSingle rest
  | [] => none

/-- The text behind the closing double quote. -/
def afterDouble : List Char → Option (List Char)
  | '\\' :: _ :: rest => afterDouble rest
  | '"' :: rest => some rest
  | _ :: rest => afterDouble rest
  | [] => none

theorem afterSingle_raw {c : Char} (h : c ≠ '\'') (rest : List Char) : afterSingle (c :: rest) = afterSingle rest := by
  rw [afterSingle.eq_3 c rest (fun _ hc => absurd hc h) (fun hc => absurd hc h)]

theorem afterSingle_skip {gap : List Char} (h : ∀ c ∈ gap, c ≠ '\'') (rest : List Char) :
    afterSingle (gap ++ rest) = afterSingle rest := by
  induction gap with
  | nil => rfl
  | cons c gap ih =>
    rw [List.forall_mem_cons] at h
    rw [List.cons_append,afterSingle_raw h.1,ih h.2]

theorem afterSingle_close {rest : List Char} (h : rest.head? ≠ some '\'') : afterSingle ('\'' :: rest) = some rest := by
  rw [afterSingle.eq_2 rest fun _ hr => h (by rw [hr]; rfl)]

theorem length_of_afterSingle {text rest : List Char} (h : afterSingle text = some rest) :
    rest.length < text.length := by
  induction text using afterSingle.induct with
  | case1 text ih =>
    rw [afterSingle] at h
    have := ih h
    simp only [List.length_cons]
    omega
  | case2 text hquote =>
    rw [afterSingle.eq_2 text hquote] at h
    cases h
    exact Nat.lt_succ_self _
  | case3 c text hpair hquote ih =>
    rw [afterSingle.eq_3 c text hpair hquote] at h
    exact Nat.lt_succ_of_lt (ih h)
  | case4 => cases h

theorem afterDouble_raw {c : Char} (hquote : c ≠ '"') (hslash : c ≠ '\\') (rest : List Char) :
    afterDouble (c :: rest) = afterDouble rest := by
  rw [afterDouble.eq_3 c rest (fun _ _ hc => absurd hc hslash) (fun hc => absurd hc hquote)]

theorem afterDouble_skip {gap : List Char} (h : ∀ c ∈ gap, c ≠ '"' ∧ c ≠ '\\') (rest : List Char) :
    afterDouble (gap ++ rest) = afterDouble rest := by
  induction gap with
  | nil => rfl
  | cons c gap ih =>
    rw [List.forall_mem_cons] at h
    rw [List.cons_append,afterDouble_raw h.1.1 h.1.2,ih h.2]

theorem space_ne {c : Char} (h : isSpace c = true) : c ≠ '\'' ∧ c ≠ '"' ∧ c ≠ '\\' := by
  refine ⟨?_,?_,?_⟩ <;> (rintro rfl; cases h)

theorem LineFold.forall_space {text value rest : List Char} (h : LineFold text value rest) :
    ∃ gap, text = gap ++ rest ∧ ∀ c ∈ gap, isSpace c = true := by
  obtain ⟨blanks,c,gap,rfl,hblanks,hc,hgap,-⟩ := h.eq
  refine ⟨blanks ++ c :: gap,by simp,?_⟩
  intro d hd
  simp only [List.mem_append,List.mem_cons] at hd
  obtain hd | rfl | hd := hd
  · simp [isSpace,hblanks d hd]
  · simp [isSpace,hc]
  · exact hgap d hd

theorem SingleBody.afterSingle_le {body value : List Char} (h : SingleBody body value) {after rest : List Char}
    (hafter : afterSingle (body ++ '\'' :: after) = some rest) : rest.length ≤ after.length := by
  induction h with
  | done =>
    rw [List.nil_append] at hafter
    cases after with
    | nil =>
      cases hafter
      exact Nat.le_refl _
    | cons c after =>
      by_cases hc : c = '\''
      · subst hc
        rw [afterSingle] at hafter
        exact Nat.le_succ_of_le (Nat.le_of_lt (length_of_afterSingle hafter))
      · rw [afterSingle_close (by simpa using hc)] at hafter
        cases hafter
        exact Nat.le_refl _
  | quote _ ih =>
    rw [List.cons_append,List.cons_append,afterSingle] at hafter
    exact ih hafter
  | raw hc _ _ _ _ ih =>
    rw [List.cons_append,afterSingle_raw hc] at hafter
    exact ih hafter
  | fold hfold _ ih =>
    obtain ⟨gap,rfl,hgap⟩ := hfold.forall_space
    rw [List.append_assoc,afterSingle_skip fun c hc => (space_ne (hgap c hc)).1] at hafter
    exact ih hafter

theorem SingleBody.length_singleInner_le {body value : List Char} (h : SingleBody body value) :
    (singleInner value).length ≤ body.length := by
  induction h with
  | done => exact Nat.le_refl _
  | quote _ ih =>
    rw [singleInner_quote]
    exact Nat.succ_le_succ (Nat.succ_le_succ ih)
  | raw hc _ _ _ _ ih =>
    rw [singleInner_raw hc]
    exact Nat.succ_le_succ ih
  | @fold _ fold rest value hfold _ ih =>
    obtain ⟨blanks,c,gap,rfl,-,-,-,hlength,hfold⟩ := hfold.eq
    have hself : singleInner fold = fold := by
      obtain rfl | ⟨n,rfl⟩ := hfold
      · rfl
      · rw [singleInner,List.flatMap_replicate]
        simp
    rw [singleInner,List.flatMap_append,← singleInner,← singleInner,hself]
    simp only [List.length_cons,List.length_append]
    omega

theorem DoubleBody.afterDouble_eq {body value : List Char} (h : DoubleBody body value) (after : List Char) :
    afterDouble (body ++ '"' :: after) = some after := by
  induction h with
  | done => rfl
  | raw hquote hslash _ _ _ _ ih => rw [List.cons_append,afterDouble_raw hquote hslash,ih]
  | escape _ _ ih => rw [List.cons_append,List.cons_append,afterDouble,ih]
  | hex _ hdigits _ _ ih =>
    rw [List.cons_append,List.cons_append,afterDouble,List.append_assoc,afterDouble_skip ?_,ih]
    intro d hd
    refine ⟨?_,?_⟩ <;> (rintro rfl; exact absurd (hdigits _ hd) (by decide))
  | fold hfold _ ih =>
    obtain ⟨gap,rfl,hgap⟩ := hfold.forall_space
    rw [List.append_assoc,afterDouble_skip fun c hc => (space_ne (hgap c hc)).2,ih]
  | joined hafter hempty _ ih =>
    obtain ⟨c,space,rfl,-,hspace⟩ := eq_of_afterBreak hafter
    obtain ⟨gap,rfl,-,hgap⟩ := hempty.eq
    rw [List.cons_append,List.cons_append,afterDouble,List.append_assoc,
      afterDouble_skip fun d hd => (space_ne (hspace d hd)).2,List.append_assoc,
      afterDouble_skip fun d hd => (space_ne (hgap d hd)).2,ih]

/-! A written scalar at the place of a scalar of the same value is that scalar. -/

theorem afterSingle_singleInner (value : List Char) {rest : List Char} (h : rest.head? ≠ some '\'') :
    afterSingle (singleInner value ++ '\'' :: rest) = some rest := by
  induction value with
  | nil => exact afterSingle_close h
  | cons c value ih =>
    by_cases hc : c = '\''
    · subst hc
      rw [singleInner_quote,List.cons_append,List.cons_append,afterSingle,ih]
    · rw [singleInner_raw hc,List.cons_append,afterSingle_raw hc,ih]

theorem afterDouble_doubleInner (value rest : List Char) :
    afterDouble (doubleInner value ++ '"' :: rest) = some rest := by
  induction value with
  | nil => rfl
  | cons c value ih =>
    by_cases hc : c = '\\' ∨ c = '"'
    · rw [doubleInner_escape hc,List.cons_append,List.cons_append,afterDouble,ih]
    · rw [doubleInner_raw hc,List.cons_append,afterDouble_raw (fun h => hc (.inr h)) (fun h => hc (.inl h)),ih]

theorem SingleBody.eq_written {body value after rest : List Char} (h : SingleBody body value)
    (hrest : rest.head? ≠ some '\'') (heq : body ++ '\'' :: after = singleInner value ++ '\'' :: rest) :
    body = singleInner value := by
  have hread := afterSingle_singleInner value hrest
  rw [← heq] at hread
  have hafter := h.afterSingle_le hread
  have hlength := h.length_singleInner_le
  have htotal := congrArg List.length heq
  simp only [List.length_append,List.length_cons] at htotal
  exact (List.append_inj heq (by omega)).1

theorem DoubleBody.eq_written {body value after rest : List Char} (h : DoubleBody body value)
    (heq : body ++ '"' :: after = doubleInner value ++ '"' :: rest) : body = doubleInner value := by
  have hread := h.afterDouble_eq after
  rw [heq,afterDouble_doubleInner] at hread
  cases hread
  exact List.append_cancel_right heq

/-! A value that a quoted scalar's text starts with. -/

/-- Behind a value that starts the text of its scalar in single quotes, there is a quote. -/
theorem SingleBody.quote_behind {body value : List Char} (h : SingleBody body value) {n : ℕ}
    (hvalue : value <+: List.replicate (n + 1) '\'' ++ body) :
    ∃ rest, List.replicate (n + 1) '\'' ++ body = value ++ '\'' :: rest := by
  induction h generalizing n with
  | done => exact ⟨_,rfl⟩
  | @quote text value _ ih =>
    have hshift : List.replicate (n + 1) '\'' ++ '\'' :: '\'' :: text =
        '\'' :: (List.replicate (n + 2) '\'' ++ text) := by
      change _ ++ (List.replicate 2 '\'' ++ text) = List.replicate (n + 3) '\'' ++ text
      rw [← List.append_assoc,List.replicate_append_replicate]
    rw [hshift] at hvalue ⊢
    obtain ⟨rest,hrest⟩ := ih (List.cons_prefix_cons.mp hvalue).2
    exact ⟨rest,congrArg (List.cons '\'') hrest⟩
  | raw hc _ _ _ _ _ => exact absurd (List.cons_prefix_cons.mp hvalue).1 hc
  | fold hfold _ _ =>
    obtain ⟨_,_,_,_,_,_,_,_,rfl | ⟨k,rfl⟩⟩ := hfold.eq
    · exact absurd (List.cons_prefix_cons.mp hvalue).1 (by decide)
    · exact absurd (List.cons_prefix_cons.mp hvalue).1 (by decide)

/-- Characters that stand for themselves wherever they are in a line in double quotes. -/
def lasting : List Char := [' ','#',',','\x7d',']']

theorem lasting_escaped {code c : Char} (h : (code,c) ∈ escaped) (hcode : code ∈ lasting) : c = code := by
  have hall : ∀ pair ∈ escaped, pair.1 ∈ lasting → pair.2 = pair.1 := by decide
  exact hall _ h hcode

theorem lasting_ne {c : Char} (h : c ∈ lasting) : c ≠ '"' ∧ c ≠ '\\' ∧ isBreak c = false ∧ hexDigit c = none ∧
    (∀ n, (c,n) ∉ hexWidths) ∧ (isBlank c = true → c = ' ') := by
  have hall : ∀ c ∈ lasting, c ≠ '"' ∧ c ≠ '\\' ∧ isBreak c = false ∧ hexDigit c = none ∧
      (∀ pair ∈ hexWidths, pair.1 ≠ c) ∧ (isBlank c = true → c = ' ') := forall_mem_of_all (by decide)
  obtain ⟨hquote,hslash,hbreak,hhex,hwidth,hblank⟩ := hall c h
  exact ⟨hquote,hslash,hbreak,hhex,fun n hn => hwidth _ hn rfl,hblank⟩

/-- The start of a text that holds a character behind the front goes on behind the front. -/
theorem exists_of_prefix_append {front text line : List Char} {c : Char} (h : line <+: front ++ text)
    (hfront : c ∉ front) (hmem : c ∈ line) : ∃ rest, line = front ++ rest ∧ rest <+: text ∧ c ∈ rest := by
  obtain hle | ⟨rest,rfl⟩ := List.prefix_or_prefix_of_prefix h (List.prefix_append front text)
  · exact absurd (hle.subset hmem) hfront
  · exact ⟨rest,rfl,(List.prefix_append_right_inj front).mp h,(List.mem_append.mp hmem).resolve_left hfront⟩

theorem not_mem_of_line {text : List Char} (h : ∀ c ∈ text, isBreak c = false) {c : Char} (hc : isBreak c = true) :
    c ∉ text := by
  intro hmem
  rw [h c hmem] at hc
  cases hc

/-- A lasting character of the first line is in the value, at no later place. -/
theorem DoubleBody.idxOf_le {body value : List Char} (h : DoubleBody body value) (hvalue : '\n' ∉ value) {c : Char}
    (hc : c ∈ lasting) {line : List Char} (hline : line <+: body) (hbreak : ∀ d ∈ line, isBreak d = false)
    (hmem : c ∈ line) : c ∈ value ∧ value.idxOf c ≤ line.idxOf c := by
  obtain ⟨hquote,hslash,hcbreak,hhex,hwidth,hblank⟩ := lasting_ne hc
  -- one character of the value stands for some text without the character
  have hstep {d : Char} {front line value : List Char} (hfront : c ∉ front) (hne : 0 < front.length)
      (ih : c ∈ value ∧ value.idxOf c ≤ line.idxOf c) :
      c ∈ d :: value ∧ (d :: value).idxOf c ≤ (front ++ line).idxOf c := by
    refine ⟨List.mem_cons_of_mem _ ih.1,?_⟩
    rw [List.idxOf_append_of_notMem hfront]
    by_cases hd : d = c
    · rw [List.idxOf_cons_eq _ hd]
      exact Nat.zero_le _
    · rw [List.idxOf_cons_ne _ hd]
      omega
  have hfirst (line value : List Char) : c ∈ c :: value ∧ (c :: value).idxOf c ≤ line.idxOf c := by
    rw [List.idxOf_cons_self]
    exact ⟨List.mem_cons_self,Nat.zero_le _⟩
  induction h generalizing line with
  | done =>
    rw [List.prefix_nil.mp hline] at hmem
    cases hmem
  | @raw text value d _ _ _ _ _ _ ih =>
    rw [List.mem_cons,not_or] at hvalue
    by_cases hd : c = d
    · subst hd
      exact hfirst line value
    · have hfront : c ∉ [d] := by simpa using hd
      obtain ⟨rest,rfl,hrest,hmem⟩ := exists_of_prefix_append hline hfront hmem
      rw [List.forall_mem_append] at hbreak
      exact hstep hfront Nat.one_pos (ih hvalue.2 hrest hbreak.2 hmem)
  | @escape text value code d hescaped _ ih =>
    rw [List.mem_cons,not_or] at hvalue
    by_cases hcode : c = code
    · subst hcode
      obtain rfl := lasting_escaped hescaped hc
      exact hfirst line value
    · have hfront : c ∉ ['\\',code] := by simp [hslash,hcode]
      obtain ⟨rest,rfl,hrest,hmem⟩ := exists_of_prefix_append hline hfront hmem
      rw [List.forall_mem_append] at hbreak
      exact hstep hfront Nat.two_pos (ih hvalue.2 hrest hbreak.2 hmem)
  | @hex digits text value mark hmark hdigits _ _ ih =>
    rw [List.mem_cons,not_or] at hvalue
    have hfront : c ∉ '\\' :: mark :: digits := by
      simp only [List.mem_cons,not_or]
      refine ⟨hslash,?_,?_⟩
      · rintro rfl
        exact hwidth _ hmark
      · intro hd
        have := hdigits c hd
        rw [hhex] at this
        cases this
    obtain ⟨rest,rfl,hrest,hmem⟩ := exists_of_prefix_append hline hfront hmem
    rw [List.forall_mem_append] at hbreak
    exact hstep hfront (Nat.succ_pos _) (ih hvalue.2 hrest hbreak.2 hmem)
  | @fold text fold rest value hfold _ ih =>
    obtain ⟨blanks,d,gap,rfl,hblanks,hd,-,-,hfold⟩ := hfold.eq
    obtain rfl | ⟨n,rfl⟩ := hfold
    · by_cases hspace : c = ' '
      · subst hspace
        exact hfirst line value
      · have hfront : c ∉ blanks ++ [d] := by
          simp only [List.mem_append,List.mem_singleton,not_or]
          refine ⟨fun h => hspace (hblank (hblanks c h)),?_⟩
          rintro rfl
          rw [hcbreak] at hd
          cases hd
        rw [List.append_cons] at hline
        obtain ⟨rest,rfl,-⟩ := exists_of_prefix_append hline hfront hmem
        exact absurd (by simp) (not_mem_of_line hbreak hd)
    · exact absurd (by simp [List.replicate_succ]) hvalue
  | @joined text next rest value n hafter _ _ ih =>
    obtain ⟨d,gap,rfl,hd,-⟩ := eq_of_afterBreak hafter
    have hfront : c ∉ ['\\',d] := by
      simp only [List.mem_cons,List.not_mem_nil,or_false,not_or]
      refine ⟨hslash,?_⟩
      rintro rfl
      rw [hcbreak] at hd
      cases hd
    obtain ⟨rest,rfl,-⟩ := @exists_of_prefix_append ['\\',d] _ _ _ hline hfront hmem
    exact absurd (by simp) (not_mem_of_line hbreak hd)

theorem exists_of_append_cons {front text line rest : List Char} {c : Char} (h : front ++ text = line ++ c :: rest)
    (hfront : c ∉ front) : ∃ more, line = front ++ more ∧ text = more ++ c :: rest := by
  obtain ⟨more,rfl,htext⟩ | ⟨more,rfl,hrest⟩ := List.append_eq_append_iff.mp h
  · exact ⟨more,rfl,htext⟩
  · cases more with
    | nil => exact ⟨[],by simp,hrest.symm⟩
    | cons d more =>
      obtain ⟨rfl,-⟩ := List.cons.inj hrest
      exact absurd (by simp) hfront

theorem escaped_line {code c : Char} (h : (code,c) ∈ escaped) : isBreak code = false := by
  have hall : ∀ pair ∈ escaped, isBreak pair.1 = false := by decide
  exact hall _ h

theorem hexWidths_line {mark : Char} {width : ℕ} (h : (mark,width) ∈ hexWidths) : isBreak mark = false := by
  have hall : ∀ pair ∈ hexWidths, isBreak pair.1 = false := by decide
  exact hall _ h

theorem hexDigit_line {c : Char} (h : (hexDigit c).isSome = true) : isBreak c = false := by
  simp only [isBreak,Bool.or_eq_false_iff,decide_eq_false_iff_not]
  refine ⟨?_,?_⟩ <;> (rintro rfl; exact absurd h (by decide))

/-- Where a scalar in double quotes goes on behind its first line, the line break stands for a space or is escaped. -/
theorem DoubleBody.space_or_joined {body value : List Char} (h : DoubleBody body value) (hvalue : '\n' ∉ value)
    {line rest : List Char} {c : Char} (hc : isBreak c = true) (hbody : body = line ++ c :: rest)
    (hbreak : ∀ d ∈ line, isBreak d = false) : ' ' ∈ value ∨ line.getLast? = some '\\' := by
  -- the same behind some text of one line
  have hstep {front line value : List Char} {d : Char} (ih : ' ' ∈ value ∨ line.getLast? = some '\\') :
      ' ' ∈ d :: value ∨ (front ++ line).getLast? = some '\\' := by
    refine ih.imp (List.mem_cons_of_mem _) fun hlast => ?_
    rw [List.getLast?_append,hlast]
    rfl
  induction h generalizing line with
  | done => exact absurd hbody (by simp)
  | @raw text value d _ _ hd _ _ _ ih =>
    rw [List.mem_cons,not_or] at hvalue
    obtain ⟨more,rfl,htext⟩ := exists_of_append_cons hbody (@not_mem_of_line [d] (by simpa using hd) c hc)
    exact hstep (ih hvalue.2 htext (List.forall_mem_append.mp hbreak).2)
  | @escape text value code d hescaped _ ih =>
    rw [List.mem_cons,not_or] at hvalue
    have hfront : ∀ d ∈ ['\\',code], isBreak d = false := by
      intro d hd
      obtain rfl | rfl : d = '\\' ∨ d = code := by simpa using hd
      · rfl
      · exact escaped_line hescaped
    obtain ⟨more,rfl,htext⟩ := exists_of_append_cons hbody (not_mem_of_line hfront hc)
    exact hstep (ih hvalue.2 htext (List.forall_mem_append.mp hbreak).2)
  | @hex digits text value mark hmark hdigits _ _ ih =>
    rw [List.mem_cons,not_or] at hvalue
    have hfront : ∀ d ∈ '\\' :: mark :: digits, isBreak d = false := by
      intro d hd
      simp only [List.mem_cons] at hd
      obtain rfl | rfl | hd := hd
      · rfl
      · exact hexWidths_line hmark
      · exact hexDigit_line (hdigits d hd)
    obtain ⟨more,rfl,htext⟩ := exists_of_append_cons hbody (not_mem_of_line hfront hc)
    exact hstep (ih hvalue.2 htext (List.forall_mem_append.mp hbreak).2)
  | @fold text fold rest value hfold _ ih =>
    obtain ⟨_,_,_,_,_,_,_,_,rfl | ⟨n,rfl⟩⟩ := hfold.eq
    · exact .inl List.mem_cons_self
    · exact absurd (by simp [List.replicate_succ]) hvalue
  | @joined text next rest value n hafter _ _ ih =>
    obtain ⟨d,gap,rfl,hd,-⟩ := eq_of_afterBreak hafter
    obtain ⟨more,rfl,htext⟩ := exists_of_append_cons hbody (@not_mem_of_line ['\\'] (forall_mem_of_all (by decide)) c hc)
    cases more with
    | nil => exact .inr rfl
    | cons e more =>
      obtain ⟨rfl,-⟩ := List.cons.inj htext
      exact absurd (by simp) (not_mem_of_line hbreak hd)

/-- A value of double quotes that starts its scalar's text holds no lasting character of the text's first line. -/
theorem DoubleBody.not_mem_line {body value : List Char} (h : DoubleBody body ('"' :: value)) (hvalue : '\n' ∉ value)
    {line : List Char} (hline : line <+: body) (hfront : value <+: line) (hbreak : ∀ d ∈ line, isBreak d = false)
    {c : Char} (hc : c ∈ lasting) : c ∉ line := by
  intro hmem
  have hquote := (lasting_ne hc).1
  have hno : '\n' ∉ '"' :: value := by simpa using hvalue
  obtain ⟨hin,hle⟩ := h.idxOf_le hno hc hline hbreak hmem
  have hin : c ∈ value := (List.mem_cons.mp hin).resolve_left hquote
  obtain ⟨rest,rfl⟩ := hfront
  rw [List.idxOf_cons_ne _ hquote.symm,List.idxOf_append_of_mem hin] at hle
  exact absurd hle (Nat.not_succ_le_self _)

theorem DoubleBody.exists_behind {body value after behind : List Char} (h : DoubleBody body value) (hne : value ≠ [])
    (heq : '"' :: (body ++ '"' :: after) = value ++ behind) :
    ∃ more rest, value = '"' :: more ∧ body = more ++ rest ∧ behind = rest ++ '"' :: after := by
  obtain ⟨c,more,rfl⟩ := List.exists_cons_of_ne_nil hne
  obtain ⟨rfl,hbody⟩ := List.cons.inj heq
  have hlength := h.length_le
  obtain ⟨rest,hmore,-⟩ | ⟨rest,hbody,hbehind⟩ := List.append_eq_append_iff.mp hbody
  · rw [hmore,List.length_cons,List.length_append] at hlength
    omega
  · exact ⟨more,rest,rfl,hbody,hbehind⟩

section
variable {body value after blanks rest : List Char} (h : DoubleBody body value) (hne : value ≠ [])
  (hvalue : ∀ c ∈ value, isBreak c = false) (hblanks : ∀ c ∈ blanks, isBlank c = true)
include h hne hvalue hblanks

/-- Behind a value that starts the text of its scalar in double quotes, there is no comment, comma or bracket. -/
theorem DoubleBody.no_boundary {c : Char} (hc : c ∈ ['#',',','\x7d',']'])
    (heq : '"' :: (body ++ '"' :: after) = value ++ (blanks ++ c :: rest)) : False := by
  obtain ⟨more,behind,rfl,rfl,hbehind⟩ := h.exists_behind hne heq
  have hlasting : c ∈ lasting := List.mem_cons_of_mem _ hc
  have hquote : '"' ∉ blanks ++ [c] := by
    simp only [List.mem_append,List.mem_singleton,not_or]
    exact ⟨fun hmem => absurd (hblanks _ hmem) (by decide),(lasting_ne hlasting).1.symm⟩
  rw [List.append_cons] at hbehind
  obtain ⟨tail,rfl,-⟩ := exists_of_append_cons hbehind hquote
  rw [List.forall_mem_cons] at hvalue
  have hline : ∀ d ∈ more ++ (blanks ++ [c]), isBreak d = false := by
    intro d hd
    simp only [List.mem_append,List.mem_singleton] at hd
    obtain hd | hd | rfl := hd
    · exact hvalue.2 d hd
    · exact isBreak_of_isBlank (hblanks d hd)
    · exact (lasting_ne hlasting).2.2.1
  have hstart : more ++ (blanks ++ [c]) <+: more ++ (blanks ++ [c] ++ tail) :=
    (List.prefix_append_right_inj more).mpr (List.prefix_append _ _)
  refine h.not_mem_line (not_mem_of_line hvalue.2 rfl) hstart (List.prefix_append _ _) hline hlasting ?_
  simp

/-- A value that starts the text of its scalar in double quotes is not followed by blanks up to the end of the line. -/
theorem DoubleBody.no_blanks (hrest : ∀ c ∈ rest.head?, isBreak c = true)
    (heq : '"' :: (body ++ '"' :: after) = value ++ (blanks ++ rest)) : blanks = [] := by
  obtain ⟨more,behind,rfl,rfl,hbehind⟩ := h.exists_behind hne heq
  have hquote : '"' ∉ blanks := fun hmem => absurd (hblanks _ hmem) (by decide)
  obtain ⟨tail,rfl,rfl⟩ := exists_of_append_cons hbehind hquote
  rw [List.forall_mem_cons] at hvalue
  cases tail with
  | nil => exact absurd (hrest '"' rfl) (by decide)
  | cons c tail =>
    have hc : isBreak c = true := hrest c rfl
    have hline : ∀ d ∈ more ++ blanks, isBreak d = false := by
      intro d hd
      exact (List.mem_append.mp hd).elim (hvalue.2 d) fun hd => isBreak_of_isBlank (hblanks d hd)
    have hstart : more ++ blanks <+: more ++ (blanks ++ c :: tail) :=
      (List.prefix_append_right_inj more).mpr (List.prefix_append _ _)
    have hno : '\n' ∉ more := not_mem_of_line hvalue.2 rfl
    obtain hspace | hlast := h.space_or_joined (by simpa using hno) hc (List.append_assoc _ _ _).symm hline
    · have hmem : ' ' ∈ more := (List.mem_cons.mp hspace).resolve_left (by decide)
      refine absurd (List.mem_append_left blanks hmem) ?_
      exact h.not_mem_line hno hstart (List.prefix_append _ _) hline (by decide)
    · by_contra hblank
      obtain ⟨front,d,rfl⟩ := List.eq_nil_or_concat' blanks |>.resolve_left hblank
      rw [← List.append_assoc,List.getLast?_concat] at hlast
      cases hlast
      exact absurd (hblanks '\\' (by simp)) (by decide)

end

/-! Plain scalars. -/

theorem PlainFirst.ne_quote {flow : Bool} {c : Char} {line : List Char} (h : PlainFirst flow c line) :
    c ≠ '\'' ∧ c ≠ '"' := by
  have hindicator : ∀ d ∈ ['\'','"'], d ∈ indicators ∧ d ∉ ['?',':','-'] :=
    forall_mem_of_all (by decide)
  refine ⟨?_,?_⟩
  · rintro rfl
    exact h.elim (fun h => h.2 (hindicator _ (by decide)).1) fun h => (hindicator _ (by decide)).2 h.1
  · rintro rfl
    exact h.elim (fun h => h.2 (hindicator _ (by decide)).1) fun h => (hindicator _ (by decide)).2 h.1

/-- The value of a plain scalar does not stand in the text where further lines are folded. -/
theorem PlainLines.eq_nil {flow : Bool} {rest value after : List Char} (h : PlainLines flow rest value)
    (hvalue : ∀ c ∈ value, isBreak c = false) (hstart : value <+: rest ++ after) : rest = [] ∧ value = [] := by
  cases h with
  | done => exact ⟨rfl,rfl⟩
  | @line _ fold rest value c line hfold hc _ _ =>
    obtain ⟨blanks,d,gap,rfl,hblanks,hd,-,-,hfold⟩ := hfold.eq
    obtain rfl | ⟨n,rfl⟩ := hfold
    · have hcbreak := hvalue c (by simp)
      cases blanks with
      | nil =>
        obtain ⟨rfl,-⟩ := List.cons_prefix_cons.mp hstart
        cases hd
      | cons b blanks =>
        obtain ⟨-,hstart⟩ := List.cons_prefix_cons.mp hstart
        cases blanks with
        | nil =>
          obtain ⟨rfl,-⟩ := List.cons_prefix_cons.mp hstart
          rw [hd] at hcbreak
          cases hcbreak
        | cons b' blanks =>
          obtain ⟨rfl,-⟩ := List.cons_prefix_cons.mp hstart
          rw [hblanks c (by simp)] at hc
          cases hc
    · exact absurd (hvalue '\n' (by simp [List.replicate_succ])) (by decide)

theorem not_blank_of_nsChar {c : Char} (h : nsChar c = true) : isBlank c = false := by
  simp only [isBlank,Bool.or_eq_false_iff,decide_eq_false_iff_not]
  refine ⟨?_,?_⟩ <;> (rintro rfl; exact absurd h (by decide))

theorem plainFrom_of_safe {flow : Bool} {before : Char} {text : List Char} (hbefore : nsChar before = true)
    (h : ∀ c ∈ text, plainSafe flow c = true) (hlast : text.getLast? ≠ some ':') : PlainFrom flow before text := by
  induction text generalizing before with
  | nil => exact not_blank_of_nsChar hbefore
  | cons c rest ih =>
    rw [List.forall_mem_cons] at h
    have hc : nsChar c = true := (Bool.and_eq_true_iff.mp h.1).1
    have hrest : rest.getLast? ≠ some ':' := by
      intro hrest
      rw [List.getLast?_cons,hrest] at hlast
      exact hlast rfl
    refine ⟨?_,ih hc h.2 hrest⟩
    by_cases hhash : c = '#'
    · exact .inr (.inl ⟨hhash,hbefore⟩)
    · by_cases hcolon : c = ':'
      · cases rest with
        | nil => exact absurd (by simp [hcolon]) hlast
        | cons d rest => exact .inr (.inr (.inl ⟨hcolon,d,rfl,h.2 d List.mem_cons_self⟩))
      · exact .inr (.inr (.inr ⟨hhash,hcolon,h.1⟩))

/-- Letters, digits and the other characters of what the core schema reads otherwise. -/
def coreChar (c : Char) : Bool := c.isAlphanum || ['~','+','-','.'].contains c

theorem coreChar_of_isDigit {c : Char} (h : c.isDigit = true) : coreChar c = true := by
  simp [coreChar,Char.isAlphanum,h]

theorem coreChar_of_hexDigit {c : Char} (h : (hexDigit c).isSome = true) : coreChar c = true := by
  unfold hexDigit at h
  split at h
  next hd => exact coreChar_of_isDigit hd
  split at h
  next hc =>
    have hupper : c.val ≤ 'z'.val := UInt32.le_trans hc.2 (by decide : 'f'.val ≤ 'z'.val)
    have hlower : c.isLower = true := Bool.and_eq_true_iff.mpr ⟨decide_eq_true hc.1,decide_eq_true hupper⟩
    have halpha : c.isAlpha = true := Bool.or_eq_true_iff.mpr (.inr hlower)
    simp [coreChar,Char.isAlphanum,halpha]
  split at h
  next hc =>
    have hle : c.val ≤ 'Z'.val := UInt32.le_trans hc.2 (by decide : 'F'.val ≤ 'Z'.val)
    have hupper : c.isUpper = true := decide_eq_true ⟨hc.1,hle⟩
    have halpha : c.isAlpha = true := Bool.or_eq_true_iff.mpr (.inl hupper)
    simp [coreChar,Char.isAlphanum,halpha]
  · cases h

theorem coreChar_of_mem {texts : List (List Char)} {text : List Char}
    (h : (texts.all fun text => text.all coreChar) = true) (htext : text ∈ texts) : ∀ c ∈ text, coreChar c = true := by
  simp only [List.all_eq_true] at h
  exact h text htext

theorem CoreValue.chars {text : List Char} (h : CoreValue text) : ∀ c ∈ text, coreChar c = true := by
  cases h with
  | null htext => exact coreChar_of_mem (by decide) htext
  | bool htext => exact coreChar_of_mem (by decide) htext
  | octal hdigits =>
    have hall : ∀ d ∈ "01234567".toList, coreChar d = true := forall_mem_of_all (by decide)
    exact List.forall_mem_cons.mpr ⟨rfl,List.forall_mem_cons.mpr ⟨rfl,fun d hd => hall d (hdigits d hd)⟩⟩
  | hexadecimal hdigits =>
    exact List.forall_mem_cons.mpr ⟨rfl,List.forall_mem_cons.mpr ⟨rfl,fun d hd => coreChar_of_hexDigit (hdigits d hd)⟩⟩
  | number hsign hwhole hfraction hexponent =>
    simp only [List.forall_mem_append]
    refine ⟨coreChar_of_mem (by decide) hsign,fun d hd => coreChar_of_isDigit (hwhole d hd),?_,?_⟩
    · obtain rfl | ⟨digits,rfl,hdigits⟩ := hfraction
      · simp
      · exact List.forall_mem_cons.mpr ⟨rfl,fun d hd => coreChar_of_isDigit (hdigits d hd)⟩
    · obtain rfl | ⟨e,sign,digits,rfl,he,hs,hdigits⟩ := hexponent
      · simp
      · rw [List.forall_mem_cons,List.forall_mem_append]
        have hall : ∀ e ∈ ['e','E'], coreChar e = true := forall_mem_of_all (by decide)
        exact ⟨hall e he,coreChar_of_mem (by decide) hs,fun d hd => coreChar_of_isDigit (hdigits d hd)⟩
  | infinite hsign htext =>
    exact List.forall_mem_append.mpr ⟨coreChar_of_mem (by decide) hsign,coreChar_of_mem (by decide) htext⟩
  | nan htext => exact coreChar_of_mem (by decide) htext

/-! All scalars. -/

theorem Scalar.ne_nil {flow : Bool} {text value : List Char} (h : Scalar flow text value) : text ≠ [] := by
  cases h <;> exact List.cons_ne_nil _ _

/-- Only quotes write the empty value. -/
theorem Scalar.quoted_of_nil {flow : Bool} {text value : List Char} (h : Scalar flow text value) (hvalue : value = []) :
    ∃ c ∈ ['\'','"'], text.head? = some c := by
  cases h with
  | plain _ _ _ => exact absurd hvalue (List.cons_ne_nil _ _)
  | single _ => exact ⟨'\'',by decide,rfl⟩
  | double _ => exact ⟨'"',by decide,rfl⟩

theorem Scalar.length_lt {flow : Bool} {text value : List Char} (h : Scalar flow text value)
    (hquote : text.head? = some '"') : value.length < text.length := by
  cases h with
  | plain hfirst _ _ =>
    refine absurd ?_ hfirst.ne_quote.2
    simpa using hquote
  | single _ => exact absurd hquote (by simp)
  | double hbody =>
    have := hbody.length_le
    simp only [List.length_cons,List.length_append]
    omega

end Yaml
end Library

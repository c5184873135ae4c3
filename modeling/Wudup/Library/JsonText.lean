import Mathlib.Data.List.Basic
import Mathlib.Data.Char
import Std.Data.String.ToInt

/-! JSON values and their compact ASCII text, which no two values share. -/
namespace Library

/-- A JSON value whose numbers are integers; the fields of an object stand in the order they are written in. -/
inductive JsonValue where
  | null
  | bool (value : Bool)
  | int (value : ℤ)
  | string (value : List Char)
  | array (values : List JsonValue)
  | object (fields : List (List Char × JsonValue))

namespace JsonValue

/-! Strings -/

def hexUnit (n : ℕ) : List Char :=
  [Nat.digitChar (n / 4096 % 16),Nat.digitChar (n / 256 % 16),Nat.digitChar (n / 16 % 16),Nat.digitChar (n % 16)]

def unicodeEscape (n : ℕ) : List Char := '\\' :: 'u' :: hexUnit n

/-- The letter of a character that has an escape of its own. -/
def shortEscape (c : Char) : Option Char :=
  if c = '"' then some '"'
  else if c = '\\' then some '\\'
  else if c = '\n' then some 'n'
  else if c = '\r' then some 'r'
  else if c = '\t' then some 't'
  else if c = '\x0c' then some 'f'
  else if c = '\x08' then some 'b'
  else none

/-- Characters outside printable ASCII are written as their UTF-16 units. -/
def escapeChar (c : Char) : List Char :=
  match shortEscape c with
  | some letter => ['\\',letter]
  | none =>
    if ' ' ≤ c ∧ c ≤ '~' then [c]
    else if c.toNat < 0x10000 then unicodeEscape c.toNat
    else unicodeEscape (0xD800 + (c.toNat - 0x10000) / 1024) ++ unicodeEscape (0xDC00 + (c.toNat - 0x10000) % 1024)

def quote (value : List Char) : List Char := '"' :: value.flatMap escapeChar ++ ['"']

mutual

def text : JsonValue → List Char
  | .null => "null".toList
  | .bool value => if value then "true".toList else "false".toList
  | .int value => value.repr.toList
  | .string value => quote value
  | .array [] => "[]".toList
  | .array (value :: rest) => '[' :: value.text ++ elementsText rest
  | .object [] => "{}".toList
  | .object ((key,value) :: rest) => '\x7b' :: quote key ++ ':' :: value.text ++ fieldsText rest

def elementsText : List JsonValue → List Char
  | [] => [']']
  | value :: rest => ',' :: value.text ++ elementsText rest

def fieldsText : List (List Char × JsonValue) → List Char
  | [] => ['\x7d']
  | (key,value) :: rest => ',' :: quote key ++ ':' :: value.text ++ fieldsText rest

end

/-! Reading a character back -/

def hexValue (c : Char) : ℕ := if c.toNat < 58 then c.toNat - 48 else c.toNat - 87

def readUnit : List Char → ℕ × List Char
  | a :: b :: c :: d :: rest => (hexValue a * 4096 + hexValue b * 256 + hexValue c * 16 + hexValue d,rest)
  | rest => (0,rest)

def readShort (letter : Char) : Char :=
  if letter = 'n' then '\n'
  else if letter = 'r' then '\r'
  else if letter = 't' then '\t'
  else if letter = 'f' then '\x0c'
  else if letter = 'b' then '\x08'
  else letter

def readChar : List Char → Char × List Char
  | [] => ('"',[])
  | c :: rest =>
    if c ≠ '\\' then (c,rest)
    else match rest with
      | [] => ('\\',[])
      | letter :: rest =>
        if letter ≠ 'u' then (readShort letter,rest)
        else
          let high := readUnit rest
          if high.1 < 0xD800 ∨ 0xDC00 ≤ high.1 then (Char.ofNat high.1,high.2)
          else
            let low := readUnit (high.2.drop 2)
            (Char.ofNat (0x10000 + (high.1 - 0xD800) * 1024 + (low.1 - 0xDC00)),low.2)

theorem hexValue_digitChar {n : ℕ} (h : n < 16) : hexValue (Nat.digitChar n) = n := by
  have hall : ∀ k : Fin 16, hexValue (Nat.digitChar k) = k := by decide
  exact hall ⟨n,h⟩

theorem readUnit_hexUnit {n : ℕ} (h : n < 0x10000) (rest : List Char) : readUnit (hexUnit n ++ rest) = (n,rest) := by
  have hmod (k : ℕ) : hexValue (Nat.digitChar (k % 16)) = k % 16 := hexValue_digitChar (Nat.mod_lt k (by decide))
  simp only [hexUnit,List.cons_append,List.nil_append,readUnit,hmod]
  congr 1
  omega

/-- A character is no surrogate. -/
theorem toNat_not_surrogate (c : Char) : c.toNat < 0xD800 ∨ 0xDFFF < c.toNat := by
  rcases c.valid with h | ⟨h,-⟩
  · exact .inl h
  · exact .inr h

theorem toNat_lt (c : Char) : c.toNat < 0x110000 := by
  rcases c.valid with h | ⟨-,h⟩
  · exact Nat.lt_trans h (by decide)
  · exact h

theorem readShort_shortEscape {c letter : Char} (h : shortEscape c = some letter) :
    letter ≠ 'u' ∧ readShort letter = c := by
  unfold shortEscape at h
  repeat'
    split at h
    · cases h
      subst_vars
      decide
  cases h

theorem readChar_unicodeEscape {n : ℕ} (h : n < 0x10000) (rest : List Char) :
    readChar (unicodeEscape n ++ rest) =
      if n < 0xD800 ∨ 0xDC00 ≤ n then (Char.ofNat n,rest)
      else (Char.ofNat (0x10000 + (n - 0xD800) * 1024 + ((readUnit (rest.drop 2)).1 - 0xDC00)),
        (readUnit (rest.drop 2)).2) := by
  rw [unicodeEscape,List.cons_append,List.cons_append,readChar]
  simp only [ne_eq,not_true_eq_false,if_false,readUnit_hexUnit h]

/-- What is written for a character is read as that character. -/
theorem readChar_escapeChar (c : Char) (rest : List Char) : readChar (escapeChar c ++ rest) = (c,rest) := by
  unfold escapeChar
  split
  · rename_i letter hshort
    obtain ⟨hu,hc⟩ := readShort_shortEscape hshort
    simp [readChar,hu,hc]
  · rename_i hshort
    have hslash : c ≠ '\\' := by
      rintro rfl
      simp [shortEscape] at hshort
    split
    · simp [readChar,hslash]
    · have hvalid := toNat_not_surrogate c
      have hlt := toNat_lt c
      split
      · rename_i hunit
        rw [readChar_unicodeEscape hunit,if_pos (by omega),Char.ofNat_toNat]
      · rename_i hunit
        rw [List.append_assoc,readChar_unicodeEscape (by omega),if_neg (by omega)]
        have hdrop : (unicodeEscape (0xDC00 + (c.toNat - 0x10000) % 1024) ++ rest).drop 2 =
            hexUnit (0xDC00 + (c.toNat - 0x10000) % 1024) ++ rest := rfl
        rw [hdrop,readUnit_hexUnit (by omega)]
        have hc : 0x10000 + (0xD800 + (c.toNat - 0x10000) / 1024 - 0xD800) * 1024 +
            (0xDC00 + (c.toNat - 0x10000) % 1024 - 0xDC00) = c.toNat := by omega
        simp only [hc,Char.ofNat_toNat]

theorem escapeChar_append_inj {c d : Char} {r s : List Char} (h : escapeChar c ++ r = escapeChar d ++ s) :
    c = d ∧ r = s := by
  have hread := congrArg readChar h
  rw [readChar_escapeChar,readChar_escapeChar] at hread
  exact Prod.mk.inj hread

/-- No escape begins with a quotation mark. -/
theorem escapeChar_ne_quote (c : Char) (r s : List Char) : escapeChar c ++ r ≠ '"' :: s := by
  intro h
  have hread := congrArg readChar h
  rw [readChar_escapeChar] at hread
  obtain rfl : c = '"' := (Prod.mk.inj hread).1
  simp [escapeChar,shortEscape] at h

theorem quote_append_inj {a b r s : List Char} (h : quote a ++ r = quote b ++ s) : a = b ∧ r = s := by
  have hbody : ∀ (a b : List Char), a.flatMap escapeChar ++ '"' :: r = b.flatMap escapeChar ++ '"' :: s →
      a = b ∧ r = s := by
    intro a
    induction a with
    | nil =>
      intro b h
      cases b with
      | nil => exact ⟨rfl,(List.cons.inj h).2⟩
      | cons d b =>
        rw [List.flatMap_cons,List.append_assoc] at h
        exact absurd h.symm (escapeChar_ne_quote d _ _)
    | cons c a ih =>
      intro b h
      cases b with
      | nil =>
        rw [List.flatMap_cons,List.append_assoc] at h
        exact absurd h (escapeChar_ne_quote c _ _)
      | cons d b =>
        rw [List.flatMap_cons,List.flatMap_cons,List.append_assoc,List.append_assoc] at h
        obtain ⟨hc,hrest⟩ := escapeChar_append_inj h
        obtain ⟨ha,hr⟩ := ih b hrest
        exact ⟨by rw [hc,ha],hr⟩
  apply hbody
  simpa [quote] using h

/-! Numbers -/

def intChar (c : Char) : Bool := c.isDigit || c = '-'

/-- The text goes on with something that is no part of a number. -/
def Ends (rest : List Char) : Prop := ∀ c ∈ rest.head?, intChar c = false

theorem intChar_of_mem_repr {n : ℤ} {c : Char} (h : c ∈ n.repr.toList) : intChar c = true := by
  have hnat : ∀ k : ℕ, c ∈ k.repr.toList → intChar c = true := by
    intro k hk
    rw [Nat.toList_repr] at hk
    simp [intChar,Nat.isDigit_of_mem_toDigits (by decide) (by decide) hk]
  rw [Int.repr_eq_if] at h
  split at h
  · exact hnat _ h
  · rw [String.toList_append,List.mem_append] at h
    rcases h with h | h
    · obtain rfl : c = '-' := by simpa using h
      rfl
    · exact hnat _ h

theorem repr_ne_nil (n : ℤ) : n.repr.toList ≠ [] := by
  have hnat : ∀ k : ℕ, k.repr.toList ≠ [] := by
    intro k
    rw [Nat.toList_repr]
    exact Nat.toDigits_ne_nil
  rw [Int.repr_eq_if]
  split
  · exact hnat _
  · rw [String.toList_append]
    exact List.append_ne_nil_of_right_ne_nil _ (hnat _)

theorem takeWhile_repr {n : ℤ} {r : List Char} (hr : Ends r) :
    (n.repr.toList ++ r).takeWhile intChar = n.repr.toList := by
  rw [List.takeWhile_append_of_pos fun c hc => intChar_of_mem_repr hc]
  cases r with
  | nil => exact List.append_nil _
  | cons c r => rw [List.takeWhile_cons_of_neg (by simp [hr c rfl]),List.append_nil]

theorem repr_append_inj {m n : ℤ} {r s : List Char} (hr : Ends r) (hs : Ends s)
    (h : m.repr.toList ++ r = n.repr.toList ++ s) : m = n ∧ r = s := by
  have htake := congrArg (List.takeWhile intChar) h
  rw [takeWhile_repr hr,takeWhile_repr hs] at htake
  refine ⟨Int.repr_injective (String.toList_inj.mp htake),?_⟩
  rw [htake] at h
  exact List.append_cancel_left h

/-! Values -/

/-- The kind of a value, and the kind of value that a character begins. -/
def kind : JsonValue → ℕ
  | .null => 0
  | .bool _ => 1
  | .int _ => 2
  | .string _ => 3
  | .array _ => 4
  | .object _ => 5

def kindOf (c : Char) : ℕ :=
  if c = 'n' then 0
  else if c = 't' ∨ c = 'f' then 1
  else if c = '"' then 3
  else if c = '[' then 4
  else if c = '\x7b' then 5
  else if intChar c then 2
  else 6

theorem kindOf_intChar {c : Char} (h : intChar c = true) : kindOf c = 2 := by
  have hne : ∀ d : Char, intChar d = false → c ≠ d := by
    rintro d hd rfl
    exact absurd (h.symm.trans hd) (by decide)
  simp [kindOf,h,hne 'n' rfl,hne 't' rfl,hne 'f' rfl,hne '"' rfl,hne '[' rfl,hne '\x7b' rfl]

theorem text_begins (v : JsonValue) : ∃ c rest, v.text = c :: rest ∧ kindOf c = v.kind := by
  match v with
  | .null => exact ⟨_,_,rfl,rfl⟩
  | .bool true => exact ⟨_,_,rfl,rfl⟩
  | .bool false => exact ⟨_,_,rfl,rfl⟩
  | .int n =>
    obtain ⟨c,rest,hc⟩ := List.exists_cons_of_ne_nil (repr_ne_nil n)
    refine ⟨c,rest,by simpa [text] using hc,kindOf_intChar (intChar_of_mem_repr (n := n) ?_)⟩
    rw [hc]
    exact List.mem_cons_self
  | .string s => exact ⟨_,_,by rw [text,quote]; rfl,rfl⟩
  | .array [] => exact ⟨_,_,by rw [text]; rfl,rfl⟩
  | .array (value :: rest) => exact ⟨_,_,by rw [text]; rfl,rfl⟩
  | .object [] => exact ⟨_,_,by rw [text]; rfl,rfl⟩
  | .object ((key,value) :: rest) => exact ⟨_,_,by rw [text]; rfl,rfl⟩

theorem kind_eq {v w : JsonValue} {r s : List Char} (h : v.text ++ r = w.text ++ s) : v.kind = w.kind := by
  obtain ⟨c,_,hv,hc⟩ := text_begins v
  obtain ⟨d,_,hw,hd⟩ := text_begins w
  rw [hv,hw] at h
  rw [← hc,← hd,(List.cons.inj h).1]

theorem text_ne_close (v : JsonValue) (r s : List Char) : v.text ++ r ≠ ']' :: s := by
  obtain ⟨c,rest,hv,hc⟩ := text_begins v
  intro h
  rw [hv] at h
  obtain rfl : c = ']' := (List.cons.inj h).1
  cases v <;> simp [kindOf,kind,intChar] at hc

theorem ends_elementsText (values : List JsonValue) (r : List Char) : Ends (elementsText values ++ r) := by
  cases values <;> simp [elementsText,Ends,intChar]

theorem ends_fieldsText (fields : List (List Char × JsonValue)) (r : List Char) : Ends (fieldsText fields ++ r) := by
  cases fields <;> simp [fieldsText,Ends,intChar]

mutual

/-- A value can be split off the front of a text in one way only. -/
theorem text_append_inj (v w : JsonValue) {r s : List Char} (hr : Ends r) (hs : Ends s)
    (h : v.text ++ r = w.text ++ s) : v = w ∧ r = s := by
  have hkind := kind_eq h
  match v,w with
  | .null,.null => exact ⟨rfl,List.append_cancel_left h⟩
  | .bool a,.bool b => cases a <;> cases b <;> simp_all [text]
  | .int m,.int n =>
    rw [text,text] at h
    obtain ⟨hmn,hrest⟩ := repr_append_inj hr hs h
    exact ⟨by rw [hmn],hrest⟩
  | .string a,.string b =>
    rw [text,text] at h
    obtain ⟨hab,hrest⟩ := quote_append_inj h
    exact ⟨by rw [hab],hrest⟩
  | .array [],.array [] => exact ⟨rfl,List.append_cancel_left h⟩
  | .array [],.array (w :: ws) =>
    simp only [text,List.cons_append,List.append_assoc] at h
    exact absurd (List.cons.inj h).2.symm (text_ne_close w _ _)
  | .array (v :: vs),.array [] =>
    simp only [text,List.cons_append,List.append_assoc] at h
    exact absurd (List.cons.inj h).2 (text_ne_close v _ _)
  | .array (v :: vs),.array (w :: ws) =>
    simp only [text,List.cons_append,List.append_assoc,List.cons.injEq,true_and] at h
    obtain ⟨hv,hrest⟩ := text_append_inj v w (ends_elementsText vs r) (ends_elementsText ws s) h
    obtain ⟨hvs,hrest⟩ := elementsText_append_inj vs ws hrest
    exact ⟨by rw [hv,hvs],hrest⟩
  | .object [],.object [] => exact ⟨rfl,List.append_cancel_left h⟩
  | .object [],.object ((k,w) :: gs) => simp [text,quote] at h
  | .object ((k,v) :: fs),.object [] => simp [text,quote] at h
  | .object ((j,v) :: fs),.object ((k,w) :: gs) =>
    simp only [text,List.cons_append,List.append_assoc,List.cons.injEq,true_and] at h
    obtain ⟨hjk,hrest⟩ := quote_append_inj h
    obtain ⟨hv,hrest⟩ :=
      text_append_inj v w (ends_fieldsText fs r) (ends_fieldsText gs s) (List.cons.inj hrest).2
    obtain ⟨hfs,hrest⟩ := fieldsText_append_inj fs gs hrest
    exact ⟨by rw [hjk,hv,hfs],hrest⟩

theorem elementsText_append_inj (vs ws : List JsonValue) {r s : List Char}
    (h : elementsText vs ++ r = elementsText ws ++ s) : vs = ws ∧ r = s := by
  match vs,ws with
  | [],[] => exact ⟨rfl,List.append_cancel_left h⟩
  | [],_ :: _ => simp [elementsText] at h
  | _ :: _,[] => simp [elementsText] at h
  | v :: vs,w :: ws =>
    simp only [elementsText,List.cons_append,List.append_assoc,List.cons.injEq,true_and] at h
    obtain ⟨hv,hrest⟩ := text_append_inj v w (ends_elementsText vs r) (ends_elementsText ws s) h
    obtain ⟨hvs,hrest⟩ := elementsText_append_inj vs ws hrest
    exact ⟨by rw [hv,hvs],hrest⟩

theorem fieldsText_append_inj (fs gs : List (List Char × JsonValue)) {r s : List Char}
    (h : fieldsText fs ++ r = fieldsText gs ++ s) : fs = gs ∧ r = s := by
  match fs,gs with
  | [],[] => exact ⟨rfl,List.append_cancel_left h⟩
  | [],(_,_) :: _ => simp [fieldsText] at h
  | (_,_) :: _,[] => simp [fieldsText] at h
  | (j,v) :: fs,(k,w) :: gs =>
    simp only [fieldsText,List.cons_append,List.append_assoc,List.cons.injEq,true_and] at h
    obtain ⟨hjk,hrest⟩ := quote_append_inj h
    obtain ⟨hv,hrest⟩ :=
      text_append_inj v w (ends_fieldsText fs r) (ends_fieldsText gs s) (List.cons.inj hrest).2
    obtain ⟨hfs,hrest⟩ := fieldsText_append_inj fs gs hrest
    exact ⟨by rw [hjk,hv,hfs],hrest⟩

end

/-- No two values have one text. -/
theorem text_injective : Function.Injective text := by
  intro v w h
  have hnil : Ends [] := by simp [Ends]
  refine (text_append_inj v w hnil hnil ?_).1
  rw [h]

end JsonValue
end Library

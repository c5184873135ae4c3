import Mathlib.Computability.Language
import Mathlib.Data.List.Basic
import Mathlib.Data.Nat.Notation

/-! Regular expressions in the syntax that JavaScript and Python share: literals, digits, anchors,
groups, alternatives and repetition. What a text means is read by a reader with a stack of groups. -/
namespace Library

inductive Regex where
  | empty
  | char (c : Char)
  | digit
  | any
  | start
  | stop
  | group (r : Regex)
  | seq (r s : Regex)
  | alt (r s : Regex)
  | opt (r : Regex)
  | star (r : Regex)
  | plus (r : Regex)
  deriving DecidableEq, Repr

/-- Any number of matches in a row. -/
inductive Repeats (matched : List Char → List Char → List Char → Prop) :
    List Char → List Char → List Char → Prop
  | none {before after : List Char} : Repeats matched before [] after
  | more {before part rest after : List Char} (h : matched before part (rest ++ after))
      (hr : Repeats matched (before ++ part) rest after) : Repeats matched before (part ++ rest) after

namespace Regex

def lineTerminators : List Char := ['\n','\r','\u2028','\u2029']

/-- The expression matches the part of a text between what is before it and what is after it. -/
def Matches : Regex → List Char → List Char → List Char → Prop
  | empty,_,part,_ => part = []
  | char c,_,part,_ => part = [c]
  | digit,_,part,_ => ∃ c, c.isDigit = true ∧ part = [c]
  | any,_,part,_ => ∃ c, c ∉ lineTerminators ∧ part = [c]
  | start,before,part,_ => before = [] ∧ part = []
  | stop,_,part,after => part = [] ∧ after = []
  | group r,before,part,after => Matches r before part after
  | seq r s,before,part,after => ∃ left right, part = left ++ right ∧
      Matches r before left (right ++ after) ∧ Matches s (before ++ left) right after
  | alt r s,before,part,after => Matches r before part after ∨ Matches s before part after
  | opt r,before,part,after => part = [] ∨ Matches r before part after
  | star r,before,part,after => Repeats (Matches r) before part after
  | plus r,before,part,after => ∃ left right, part = left ++ right ∧
      Matches r before left (right ++ after) ∧ Repeats (Matches r) (before ++ left) right after

/-- The expression matches a part of the text. -/
def Search (r : Regex) (text : List Char) : Prop :=
  ∃ before part after, text = before ++ part ++ after ∧ r.Matches before part after

/-- The expression matches the whole text. -/
def Fullmatch (r : Regex) (text : List Char) : Prop := r.Matches [] text []

/-! The matcher tries every split. -/

/-- Repetition within a number of steps; a step that matches nothing is left out. -/
def repeatsWithin (matched : List Char → List Char → List Char → Bool) :
    ℕ → List Char → List Char → List Char → Bool
  | 0,_,part,_ => part.isEmpty
  | n + 1,before,part,after => part.isEmpty || (List.range part.length).any fun i =>
      matched before (part.take (i + 1)) (part.drop (i + 1) ++ after) &&
        repeatsWithin matched n (before ++ part.take (i + 1)) (part.drop (i + 1)) after

def splits (left right : List Char → List Char → List Char → Bool) (before part after : List Char) : Bool :=
  (List.range (part.length + 1)).any fun i =>
    left before (part.take i) (part.drop i ++ after) && right (before ++ part.take i) (part.drop i) after

def matchesIn : Regex → List Char → List Char → List Char → Bool
  | empty,_,part,_ => part.isEmpty
  | char c,_,part,_ => part = [c]
  | digit,_,part,_ => part.length = 1 && part.all Char.isDigit
  | any,_,part,_ => part.length = 1 && part.all fun c => !lineTerminators.contains c
  | start,before,part,_ => before.isEmpty && part.isEmpty
  | stop,_,part,after => part.isEmpty && after.isEmpty
  | group r,before,part,after => matchesIn r before part after
  | seq r s,before,part,after => splits (matchesIn r) (matchesIn s) before part after
  | alt r s,before,part,after => matchesIn r before part after || matchesIn s before part after
  | opt r,before,part,after => part.isEmpty || matchesIn r before part after
  | star r,before,part,after => repeatsWithin (matchesIn r) part.length before part after
  | plus r,before,part,after =>
    splits (matchesIn r) (fun b p a => repeatsWithin (matchesIn r) p.length b p a) before part after

theorem splits_iff {left right : List Char → List Char → List Char → Bool}
    {l r : List Char → List Char → List Char → Prop} (hl : ∀ b p a, left b p a = true ↔ l b p a)
    (hr : ∀ b p a, right b p a = true ↔ r b p a) {before part after : List Char} :
    splits left right before part after = true ↔
      ∃ x y, part = x ++ y ∧ l before x (y ++ after) ∧ r (before ++ x) y after := by
  simp only [splits,List.any_eq_true,List.mem_range,Bool.and_eq_true,hl,hr]
  constructor
  · rintro ⟨i,-,h⟩
    exact ⟨part.take i,part.drop i,(List.take_append_drop i part).symm,h⟩
  · rintro ⟨x,y,rfl,h⟩
    refine ⟨x.length,?_,by simpa using h⟩
    rw [List.length_append]
    omega

theorem repeatsWithin_iff {m : List Char → List Char → List Char → Bool}
    {matched : List Char → List Char → List Char → Prop} (h : ∀ b p a, m b p a = true ↔ matched b p a) {n : ℕ}
    {before part after : List Char} (hn : part.length ≤ n) :
    repeatsWithin m n before part after = true ↔ Repeats matched before part after := by
  constructor
  · intro hr
    clear hn
    induction n generalizing before part with
    | zero =>
      rw [repeatsWithin,List.isEmpty_iff] at hr
      rw [hr]
      exact .none
    | succ n ih =>
      rw [repeatsWithin,Bool.or_eq_true,List.isEmpty_iff,List.any_eq_true] at hr
      rcases hr with rfl | ⟨i,-,hi⟩
      · exact .none
      · rw [Bool.and_eq_true,h] at hi
        rw [← List.take_append_drop (i + 1) part]
        exact .more hi.1 (ih hi.2)
  · intro hr
    induction hr generalizing n with
    | none => cases n <;> rfl
    | @more before part rest after hm hr ih =>
      cases part with
      | nil => simpa using ih (by simpa using hn)
      | cons c part =>
        cases n with
        | zero => simp at hn
        | succ n =>
          rw [repeatsWithin,Bool.or_eq_true,List.any_eq_true]
          have hlen : rest.length ≤ n := by
            simp only [List.cons_append,List.length_cons,List.length_append] at hn
            omega
          refine .inr ⟨part.length,?_,?_⟩
          · rw [List.mem_range,List.length_append,List.length_cons]
            omega
          · rw [Bool.and_eq_true,h]
            simpa using ⟨hm,ih hlen⟩

theorem matchesIn_iff {r : Regex} {before part after : List Char} :
    matchesIn r before part after = true ↔ r.Matches before part after := by
  induction r generalizing before part after with
  | empty => exact List.isEmpty_iff
  | char c => simp [matchesIn,Matches]
  | digit =>
    rw [matchesIn,Matches,Bool.and_eq_true,decide_eq_true_eq,List.length_eq_one_iff]
    constructor
    · rintro ⟨⟨c,rfl⟩,h⟩
      exact ⟨c,by simpa using h,rfl⟩
    · rintro ⟨c,h,rfl⟩
      exact ⟨⟨c,rfl⟩,by simpa using h⟩
  | any =>
    rw [matchesIn,Matches,Bool.and_eq_true,decide_eq_true_eq,List.length_eq_one_iff]
    constructor
    · rintro ⟨⟨c,rfl⟩,h⟩
      exact ⟨c,by simpa using h,rfl⟩
    · rintro ⟨c,h,rfl⟩
      exact ⟨⟨c,rfl⟩,by simpa using h⟩
  | start => simp [matchesIn,Matches]
  | stop => simp [matchesIn,Matches]
  | group r ih => exact ih
  | seq r s ihr ihs => exact splits_iff (fun _ _ _ => ihr) fun _ _ _ => ihs
  | alt r s ihr ihs => rw [matchesIn,Bool.or_eq_true,ihr,ihs,Matches]
  | opt r ih => rw [matchesIn,Bool.or_eq_true,List.isEmpty_iff,ih,Matches]
  | star r ih => exact repeatsWithin_iff (fun _ _ _ => ih) (Nat.le_refl _)
  | plus r ih =>
    exact splits_iff (fun _ _ _ => ih) fun _ _ _ => repeatsWithin_iff (fun _ _ _ => ih) (Nat.le_refl _)

instance (r : Regex) (text : List Char) : Decidable (r.Fullmatch text) :=
  decidable_of_iff (matchesIn r [] text [] = true) matchesIn_iff

/-- The search tries every part of the text. -/
def searchIn (r : Regex) (text : List Char) : Bool :=
  splits (fun _ _ _ => true) (splits (matchesIn r) fun _ _ _ => true) [] text []

theorem searchIn_iff {r : Regex} {text : List Char} : searchIn r text = true ↔ r.Search text := by
  have htrue : ∀ b p a : List Char, (fun _ _ _ => true : List Char → List Char → List Char → Bool) b p a = true ↔
      (fun _ _ _ => True : List Char → List Char → List Char → Prop) b p a := by simp
  rw [searchIn,splits_iff htrue fun b p a => splits_iff (fun _ _ _ => matchesIn_iff) htrue]
  constructor
  · rintro ⟨before,_,rfl,-,part,after,rfl,h,-⟩
    exact ⟨before,part,after,by simp,by simpa using h⟩
  · rintro ⟨before,part,after,rfl,h⟩
    exact ⟨before,part ++ after,by simp,trivial,part,after,rfl,by simpa using h,trivial⟩

instance (r : Regex) (text : List Char) : Decidable (r.Search text) :=
  decidable_of_iff (searchIn r text = true) searchIn_iff

/-! Reading an expression from its text. -/

def sequence : List Regex → Regex
  | [] => empty
  | r :: rest => seq r (sequence rest)

def quantifiable : Regex → Bool
  | start | stop | opt _ | star _ | plus _ => false
  | _ => true

/-- The characters that stand for themselves only after a backslash. -/
def special (c : Char) : Bool := "\\^$.*+?()[]\x7b\x7d|".toList.contains c

/-- A class of characters that holds none of those is read as it is written. -/
theorem special_of_class {p : Char → Bool} (hp : "\\^$.*+?()[]\x7b\x7d|".toList.all (fun c => !p c) = true) {c : Char}
    (h : p c = true) : special c = false := by
  rw [special,Bool.eq_false_iff]
  intro hs
  have hnot := List.all_eq_true.mp hp c (List.contains_iff_mem.mp hs)
  rw [h] at hnot
  cases hnot

/-- A group while it is read: the alternatives before, and the parts of the one being read, last first. -/
structure Frame where
  alternatives : List Regex := []
  atoms : List Regex := []
  deriving DecidableEq, Repr

def Frame.current (f : Frame) : Regex := sequence f.atoms.reverse

def Frame.regex (f : Frame) : Regex := f.alternatives.foldl (fun r s => alt s r) f.current

def Frame.push (f : Frame) (r : Regex) : Frame := { f with atoms := r :: f.atoms }

inductive Mode where
  | plain
  | escaped
  | opened
  | asked
  deriving DecidableEq, Repr

/-- The group being read and the groups around it. -/
structure Reader where
  mode : Mode := .plain
  frame : Frame := {}
  outer : List Frame := []
  deriving DecidableEq, Repr

namespace Reader

def push (s : Reader) (r : Regex) : Reader := ⟨.plain,s.frame.push r,s.outer⟩

/-- A quantifier applies to the part before it. -/
def quantify (s : Reader) (q : Regex → Regex) : Option Reader :=
  match s.frame.atoms with
  | [] => none
  | r :: rest => if r.quantifiable then some ⟨.plain,⟨s.frame.alternatives,q r :: rest⟩,s.outer⟩ else none

def openGroup (s : Reader) : Reader := ⟨.plain,{},s.frame :: s.outer⟩

def closeGroup (s : Reader) : Option Reader :=
  match s.outer with
  | [] => none
  | f :: rest => some ⟨.plain,f.push (group s.frame.regex),rest⟩

def nextAlternative (s : Reader) : Reader := ⟨.plain,⟨s.frame.current :: s.frame.alternatives,[]⟩,s.outer⟩

def readPlain (s : Reader) (c : Char) : Option Reader :=
  if c = '\\' then some { s with mode := .escaped }
  else if c = '(' then some { s with mode := .opened }
  else if c = ')' then s.closeGroup
  else if c = '|' then some s.nextAlternative
  else if c = '*' then s.quantify star
  else if c = '+' then s.quantify plus
  else if c = '?' then s.quantify opt
  else if c = '.' then some (s.push any)
  else if c = '^' then some (s.push start)
  else if c = '$' then some (s.push stop)
  else if special c then none
  else some (s.push (char c))

def read (s : Reader) (c : Char) : Option Reader :=
  match s.mode with
  | .plain => s.readPlain c
  | .escaped => if c = 'd' then some (s.push digit) else if special c then some (s.push (char c)) else none
  | .opened => if c = '?' then some { s with mode := .asked } else s.openGroup.readPlain c
  | .asked => if c = ':' then some s.openGroup else none

def finish (s : Reader) : Option Regex :=
  if s.mode = .plain && s.outer = [] then some s.frame.regex else none

end Reader

/-- The expression a text stands for; `none` outside the syntax above. -/
def parse (text : List Char) : Option Regex := (text.foldlM Reader.read {}).bind Reader.finish

example : parse "^1(?:\\.\\d+)+$".toList = some (sequence [start,char '1',
    plus (group (sequence [char '.',plus digit])),stop]) := by decide

/-! What a text adds to the group being read. -/

/-- Reading the text adds these parts. -/
def Reads (text : List Char) (rs : List Regex) : Prop :=
  ∀ f outer, text.foldlM Reader.read ⟨.plain,f,outer⟩ = some ⟨.plain,⟨f.alternatives,rs.reverse ++ f.atoms⟩,outer⟩

theorem Reads.nil : Reads [] [] := fun _ _ => rfl

theorem Reads.append {text text' : List Char} {rs rs' : List Regex} (h : Reads text rs) (h' : Reads text' rs') :
    Reads (text ++ text') (rs ++ rs') := by
  intro f outer
  rw [List.foldlM_append,h f outer]
  simpa using h' ⟨f.alternatives,rs.reverse ++ f.atoms⟩ outer

/-- A literal character as it is written. -/
def escape (c : Char) : List Char := if special c then ['\\',c] else [c]

theorem Reads.escape (c : Char) : Reads (escape c) [char c] := by
  intro f outer
  by_cases hs : special c = true
  · have hd : c ≠ 'd' := by
      rintro rfl
      cases hs
    simp [Regex.escape,hs,hd,Reader.read,Reader.readPlain,Reader.push,Frame.push]
  · have hc := hs
    simp only [special,List.contains_eq_mem,decide_eq_true_eq] at hc
    simp only [String.reduceToList,List.mem_cons,List.not_mem_nil,not_or,or_false] at hc
    simp [Regex.escape,hs,hc,Reader.read,Reader.readPlain,Reader.push,Frame.push]

theorem Reads.flatMap {ι : Type} {text : ι → List Char} {r : ι → List Regex} (h : ∀ i, Reads (text i) (r i))
    (xs : List ι) : Reads (xs.flatMap text) (xs.flatMap r) := by
  induction xs with
  | nil => exact .nil
  | cons x xs ih => exact (h x).append ih

theorem Reads.digits : Reads "\\d+".toList [plus digit] := fun _ _ => rfl

theorem Reads.start : Reads ['^'] [start] := fun _ _ => rfl

theorem Reads.stop : Reads ['$'] [stop] := fun _ _ => rfl

/-- The text of a group reads what the text inside reads. -/
theorem Reads.group {text : List Char} {rs : List Regex} (h : Reads text rs) :
    Reads ("(?:".toList ++ text ++ [')']) [group (sequence rs)] := by
  intro f outer
  rw [List.foldlM_append,List.foldlM_append]
  have hopen : "(?:".toList.foldlM Reader.read ⟨.plain,f,outer⟩ = some ⟨.plain,{},f :: outer⟩ := rfl
  rw [hopen,Option.bind_eq_bind,Option.bind_some,h]
  simp [Reader.read,Reader.readPlain,Reader.closeGroup,Frame.push,Frame.regex,Frame.current]

theorem parse_of_reads {text : List Char} {rs : List Regex} (h : Reads text rs) :
    parse text = some (sequence rs) := by
  rw [parse,h]
  simp [Reader.finish,Frame.regex,Frame.current]

/-! What an expression without anchors matches does not depend on the text around it. -/

/-- Wherever it stands, the expression matches the texts of a language. -/
def Describes (r : Regex) (language : Language Char) : Prop :=
  ∀ before part after, r.Matches before part after ↔ part ∈ language

theorem Describes.empty : Describes empty 1 := fun _ _ _ => Iff.rfl

theorem Describes.char (c : Char) : Describes (char c) {[c]} := fun _ _ _ => Iff.rfl

/-- Texts of one digit. -/
def digits : Language Char := {text | ∃ c, c.isDigit = true ∧ text = [c]}

theorem Describes.digit : Describes digit digits := fun _ _ _ => Iff.rfl

theorem Describes.group {r : Regex} {language : Language Char} (h : Describes r language) :
    Describes (group r) language := h

theorem Describes.seq {r s : Regex} {left right : Language Char} (hr : Describes r left)
    (hs : Describes s right) : Describes (seq r s) (left * right) := by
  intro before part after
  rw [Language.mem_mul]
  constructor
  · rintro ⟨x,y,rfl,hx,hy⟩
    exact ⟨x,(hr _ _ _).mp hx,y,(hs _ _ _).mp hy,rfl⟩
  · rintro ⟨x,hx,y,hy,rfl⟩
    exact ⟨x,y,rfl,(hr _ _ _).mpr hx,(hs _ _ _).mpr hy⟩

theorem Describes.alt {r s : Regex} {left right : Language Char} (hr : Describes r left)
    (hs : Describes s right) : Describes (alt r s) (left + right) := by
  intro before part after
  rw [Language.mem_add,← hr before part after,← hs before part after]
  rfl

theorem Describes.repeats {r : Regex} {language : Language Char} (h : Describes r language)
    {before part after : List Char} : Repeats r.Matches before part after ↔ part ∈ KStar.kstar language := by
  rw [Language.mem_kstar]
  constructor
  · intro hr
    induction hr with
    | none => exact ⟨[],rfl,by simp⟩
    | more hm _ ih =>
      obtain ⟨parts,rfl,hp⟩ := ih
      refine ⟨_ :: parts,rfl,?_⟩
      simpa using ⟨(h _ _ _).mp hm,hp⟩
  · rintro ⟨parts,rfl,hp⟩
    induction parts generalizing before with
    | nil => exact .none
    | cons x parts ih =>
      exact .more ((h _ _ _).mpr (hp x (by simp))) (ih fun y hy => hp y (List.mem_cons_of_mem _ hy))

theorem Describes.plus {r : Regex} {language : Language Char} (h : Describes r language) :
    Describes (plus r) (language * KStar.kstar language) := by
  intro before part after
  rw [Language.mem_mul]
  constructor
  · rintro ⟨x,y,rfl,hx,hy⟩
    exact ⟨x,(h _ _ _).mp hx,y,h.repeats.mp hy,rfl⟩
  · rintro ⟨x,hx,y,hy,rfl⟩
    exact ⟨x,y,rfl,(h _ _ _).mpr hx,h.repeats.mpr hy⟩

/-- A sequence splits where its list does. -/
theorem matches_sequence_append {rs rs' : List Regex} {before part after : List Char} :
    (sequence (rs ++ rs')).Matches before part after ↔ ∃ left right, part = left ++ right ∧
      (sequence rs).Matches before left (right ++ after) ∧ (sequence rs').Matches (before ++ left) right after := by
  induction rs generalizing before part with
  | nil =>
    constructor
    · intro h
      exact ⟨[],part,rfl,rfl,by simpa using h⟩
    · rintro ⟨left,right,rfl,hl,hr⟩
      have hl : left = [] := hl
      subst hl
      simpa using hr
  | cons r rs ih =>
    constructor
    · rintro ⟨x,y,rfl,hx,hy⟩
      obtain ⟨z,w,rfl,hz,hw⟩ := ih.mp hy
      refine ⟨x ++ z,w,by simp,⟨x,z,rfl,by simpa using hx,hz⟩,?_⟩
      rwa [← List.append_assoc]
    · rintro ⟨left,right,rfl,⟨x,z,rfl,hx,hz⟩,hr⟩
      refine ⟨x,z ++ right,by simp,by simpa using hx,ih.mpr ⟨z,right,rfl,hz,?_⟩⟩
      rwa [List.append_assoc]

theorem describes_sequence_append {rs rs' : List Regex} {left right : Language Char}
    (h : Describes (sequence rs) left) (h' : Describes (sequence rs') right) :
    Describes (sequence (rs ++ rs')) (left * right) := by
  intro before part after
  rw [matches_sequence_append,Language.mem_mul]
  constructor
  · rintro ⟨x,y,rfl,hx,hy⟩
    exact ⟨x,(h _ _ _).mp hx,y,(h' _ _ _).mp hy,rfl⟩
  · rintro ⟨x,hx,y,hy,rfl⟩
    exact ⟨x,y,rfl,(h _ _ _).mpr hx,(h' _ _ _).mpr hy⟩

theorem describes_singleton {r : Regex} {language : Language Char} (h : Describes r language) :
    Describes (sequence [r]) language := by
  have hseq := h.seq Describes.empty
  rwa [mul_one] at hseq

/-! Texts of expressions without anchors. -/

/-- The text adds an expression for a language. -/
def Spells (text : List Char) (language : Language Char) : Prop :=
  ∃ rs, Reads text rs ∧ Describes (sequence rs) language

theorem Spells.nil : Spells [] 1 := ⟨[],.nil,.empty⟩

theorem Spells.append {text text' : List Char} {left right : Language Char} (h : Spells text left)
    (h' : Spells text' right) : Spells (text ++ text') (left * right) := by
  obtain ⟨rs,hr,hd⟩ := h
  obtain ⟨rs',hr',hd'⟩ := h'
  exact ⟨rs ++ rs',hr.append hr',describes_sequence_append hd hd'⟩

theorem Spells.char (c : Char) : Spells (escape c) {[c]} :=
  ⟨[.char c],.escape c,describes_singleton (.char c)⟩

/-- An escaped text spells itself. -/
theorem singleton_mul (text rest : List Char) : ({text} : Language Char) * {rest} = {text ++ rest} := by
  ext other
  rw [Language.mem_mul]
  constructor
  · rintro ⟨_,rfl,_,rfl,rfl⟩
    rfl
  · rintro rfl
    exact ⟨text,rfl,rest,rfl,rfl⟩

theorem Spells.literal (text : List Char) : Spells (text.flatMap escape) {text} := by
  induction text with
  | nil => exact .nil
  | cons c rest ih =>
    have h := (Spells.char c).append ih
    rwa [singleton_mul,List.singleton_append] at h

/-- Texts of one digit or more. -/
def numbers : Language Char := {text | text ≠ [] ∧ ∀ c ∈ text, c.isDigit = true}

theorem mem_numbers {text : List Char} : text ∈ numbers ↔ text ≠ [] ∧ ∀ c ∈ text, c.isDigit = true := Iff.rfl

theorem digits_plus : digits * KStar.kstar digits = numbers := by
  ext text
  rw [Language.mem_mul,mem_numbers]
  constructor
  · rintro ⟨_,⟨c,hc,rfl⟩,_,hs,rfl⟩
    obtain ⟨parts,rfl,hp⟩ := Language.mem_kstar.mp hs
    refine ⟨by simp,?_⟩
    intro d hd
    rcases List.mem_append.mp hd with hd | hd
    · rwa [List.mem_singleton.mp hd]
    · obtain ⟨part,hpart,hd⟩ := List.mem_flatten.mp hd
      obtain ⟨e,he,rfl⟩ := hp part hpart
      rwa [List.mem_singleton.mp hd]
  · rintro ⟨hne,hd⟩
    cases text with
    | nil => exact absurd rfl hne
    | cons c rest =>
      refine ⟨[c],⟨c,hd c (by simp),rfl⟩,rest,Language.mem_kstar.mpr ⟨rest.map fun d => [d],?_,?_⟩,rfl⟩
      · rw [← List.flatMap_def,List.flatMap_singleton']
      · intro part hpart
        obtain ⟨d,hdm,rfl⟩ := List.mem_map.mp hpart
        exact ⟨d,hd d (List.mem_cons_of_mem _ hdm),rfl⟩

theorem Describes.numbers : Describes (.plus .digit) numbers := by
  rw [← digits_plus]
  exact Describes.digit.plus

theorem Spells.numbers : Spells "\\d+".toList numbers := ⟨[.plus .digit],.digits,describes_singleton .numbers⟩

/-- A number in a capturing group. -/
theorem Spells.captured : Spells "(\\d+)".toList Regex.numbers :=
  ⟨[.group (sequence [.plus .digit])],fun _ _ => rfl,
    describes_singleton (Describes.group (describes_singleton .numbers))⟩

/-- The text of a group that may be repeated. -/
theorem Spells.repeated {text : List Char} {language : Language Char} (h : Spells text language) :
    Spells ("(?:".toList ++ text ++ ")+".toList) (language * KStar.kstar language) := by
  obtain ⟨rs,hr,hd⟩ := h
  refine ⟨[.plus (.group (sequence rs))],?_,describes_singleton (Describes.plus (Describes.group hd))⟩
  intro f outer
  have hsplit : "(?:".toList ++ text ++ ")+".toList = ("(?:".toList ++ text ++ [')']) ++ ['+'] := by simp
  rw [hsplit,List.foldlM_append,hr.group]
  rfl

/-! Alternatives in a group. -/

theorem matches_frame {alternatives : List Regex} {current : Regex} {before part after : List Char} :
    (alternatives.foldl (fun r s => .alt s r) current).Matches before part after ↔
      current.Matches before part after ∨ ∃ r ∈ alternatives, r.Matches before part after := by
  induction alternatives generalizing current with
  | nil => simp
  | cons r rest ih =>
    rw [List.foldl_cons,ih]
    change ((r.Matches before part after ∨ current.Matches before part after) ∨ _) ↔ _
    rw [List.exists_mem_cons_iff]
    constructor
    · rintro ((h | h) | h)
      · exact .inr (.inl h)
      · exact .inl h
      · exact .inr (.inr h)
    · rintro (h | h | h)
      · exact .inl (.inr h)
      · exact .inl (.inl h)
      · exact .inr h

/-- Alternatives are read one by one. -/
theorem foldlM_alternatives {languageOf : List Char → Language Char} {text : List Char}
    {texts : List (List Char)} (h : ∀ t ∈ text :: texts, Spells t (languageOf t)) (alternatives : List Regex) :
    ∃ f, (∀ outer, (text ++ texts.flatMap ('|' :: ·)).foldlM Reader.read ⟨.plain,⟨alternatives,[]⟩,outer⟩ =
        some ⟨.plain,f,outer⟩) ∧ ∀ before part after, f.regex.Matches before part after ↔
          (∃ r ∈ alternatives, r.Matches before part after) ∨ ∃ t ∈ text :: texts, part ∈ languageOf t := by
  obtain ⟨rs,hr,hd⟩ := h text (by simp)
  induction texts generalizing alternatives text rs with
  | nil =>
    refine ⟨⟨alternatives,rs.reverse ++ []⟩,fun outer => by simpa using hr ⟨alternatives,[]⟩ outer,?_⟩
    intro before part after
    rw [Frame.regex,matches_frame,Frame.current]
    simp only [List.append_nil,List.reverse_reverse,List.mem_singleton,exists_eq_left,hd before part after]
    exact or_comm
  | cons next texts ih =>
    obtain ⟨rs',hr',hd'⟩ := h next (by simp)
    obtain ⟨f,hrun,hf⟩ := ih (fun t ht => h t (List.mem_cons_of_mem _ ht)) (sequence rs :: alternatives) rs' hr' hd'
    refine ⟨f,?_,?_⟩
    · intro outer
      rw [List.foldlM_append,hr]
      simpa [Reader.read,Reader.readPlain,Reader.nextAlternative,Frame.current] using hrun outer
    · intro before part after
      rw [hf]
      simp only [List.exists_mem_cons_iff,hd before part after]
      constructor
      · rintro ((h | h) | h)
        · exact .inr (.inl h)
        · exact .inl h
        · exact .inr (.inr h)
      · rintro (h | h | h)
        · exact .inl (.inr h)
        · exact .inl (.inl h)
        · exact .inr h

/-- A group of alternatives spells the texts of each. -/
theorem Spells.alternatives {languageOf : List Char → Language Char} {text : List Char}
    {texts : List (List Char)} (h : ∀ t ∈ text :: texts, Spells t (languageOf t)) :
    Spells ("(?:".toList ++ (text ++ texts.flatMap ('|' :: ·)) ++ [')'])
      {part | ∃ t ∈ text :: texts, part ∈ languageOf t} := by
  obtain ⟨f,hrun,hf⟩ := foldlM_alternatives h []
  refine ⟨[.group f.regex],?_,describes_singleton (Describes.group ?_)⟩
  · intro g outer
    have hopen : "(?:".toList.foldlM Reader.read ⟨.plain,g,outer⟩ = some ⟨.plain,{},g :: outer⟩ := rfl
    rw [List.foldlM_append,List.foldlM_append,hopen,Option.bind_eq_bind,Option.bind_some,hrun]
    rfl
  · intro before part after
    rw [hf]
    simp only [List.not_mem_nil,false_and,exists_false,false_or]
    rfl

/-- An expression between the two anchors matches the texts of its language and nothing else, whether it is
searched for or matched with the whole text. -/
theorem Spells.anchored {text : List Char} {language : Language Char} (h : Spells text language) :
    ∃ r, parse ('^' :: text ++ ['$']) = some r ∧ ∀ u, (r.Search u ↔ u ∈ language) ∧ (r.Fullmatch u ↔ u ∈ language) := by
  obtain ⟨rs,hr,hd⟩ := h
  have hreads : Reads ('^' :: text ++ ['$']) ([.start] ++ rs ++ [.stop]) := (Reads.start.append hr).append .stop
  have hmatch : ∀ before part after, (sequence ([.start] ++ rs ++ [.stop])).Matches before part after ↔
      before = [] ∧ after = [] ∧ part ∈ language := by
    intro before part after
    rw [matches_sequence_append]
    constructor
    · rintro ⟨left,right,rfl,hl,y,z,rfl,⟨rfl,hz⟩,hend⟩
      obtain ⟨x,w,rfl,⟨x1,x2,rfl,⟨rfl,rfl⟩,rfl⟩,hw⟩ := matches_sequence_append.mp hl
      have hend : z = [] := hend
      subst hend
      refine ⟨rfl,by simpa using hz,?_⟩
      simpa using (hd _ _ _).mp hw
    · rintro ⟨rfl,rfl,hp⟩
      refine ⟨part,[],by simp,matches_sequence_append.mpr ⟨[],part,rfl,⟨[],[],rfl,⟨rfl,rfl⟩,rfl⟩,?_⟩,
        ⟨[],[],rfl,⟨rfl,rfl⟩,rfl⟩⟩
      exact (hd _ _ _).mpr hp
  refine ⟨_,parse_of_reads hreads,fun u => ⟨?_,?_⟩⟩
  · constructor
    · rintro ⟨before,part,after,rfl,hm⟩
      obtain ⟨rfl,rfl,hp⟩ := (hmatch _ _ _).mp hm
      simpa using hp
    · intro hu
      exact ⟨[],u,[],by simp,(hmatch _ _ _).mpr ⟨rfl,rfl,hu⟩⟩
  · rw [Fullmatch,hmatch]
    simp

end Regex
end Library

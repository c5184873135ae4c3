import Wudup.Library.Text

/-! Whitespace and digits of Unicode text. -/
namespace Library

/-- The characters that are stripped from text by default. -/
def whitespace : List Char :=
  ['\t','\n','\x0b','\x0c','\r','\x1c','\x1d','\x1e','\x1f',' ','\u0085','\u00a0','\u1680','\u2000',
    '\u2001','\u2002','\u2003','\u2004','\u2005','\u2006','\u2007','\u2008','\u2009','\u200a','\u2028',
    '\u2029','\u202f','\u205f','\u3000']

def strip (text : List Char) : List Char := stripChars whitespace text

/-- The characters that end a line; a carriage return and a newline end it together. -/
def lineEnds : List Char :=
  ['\n','\r','\x0b','\x0c','\x1c','\x1d','\x1e','\u0085','\u2028','\u2029']

/-- The lines of a text with what ends them. -/
def keepLines : List Char → List (List Char)
  | [] => []
  | '\r' :: '\n' :: rest => ['\r','\n'] :: keepLines rest
  | c :: rest =>
    if lineEnds.contains c then [c] :: keepLines rest
    else match keepLines rest with
      | [] => [[c]]
      | line :: lines => (c :: line) :: lines

/-- The zeros of the runs of ten decimal digits. -/
def decimalZeros : List ℕ :=
  [48,1632,1776,1984,2406,2534,2662,2790,2918,3046,3174,3302,3430,3558,3664,3792,3872,4160,4240,6112,6160,
    6470,6608,6784,6800,6992,7088,7232,7248,42528,43216,43264,43472,43504,43600,44016,65296,66720,68912,
    69734,69872,69942,70096,70384,70736,70864,71248,71360,71472,71904,72016,72784,73040,73120,92768,92864,
    93008,120782,120792,120802,120812,120822,123200,123632,125264,130032]

/-- Superscripts, circled digits and the like: digits that no number is written in. -/
def otherDigits : List (ℕ × ℕ) :=
  [(178,179),(185,185),(4969,4977),(6618,6618),(8304,8304),(8308,8313),(8320,8329),(9312,9320),(9332,9340),
    (9352,9360),(9450,9450),(9461,9469),(9471,9471),(10102,10110),(10112,10120),(10122,10130),(68160,68163),
    (69216,69224),(69714,69722),(127232,127242)]

def decimalValue (c : Char) : Option ℕ :=
  (decimalZeros.find? fun z => z ≤ c.toNat && c.toNat < z + 10).map fun z => c.toNat - z

def isDigit (c : Char) : Bool :=
  (decimalValue c).isSome || otherDigits.any fun (first,last) => first ≤ c.toNat && c.toNat ≤ last

def isDigits (text : List Char) : Bool := text ≠ [] && text.all isDigit

/-- The longest text that is read as a number. -/
def maxDigits : ℕ := 4300

/-- The number that decimal digits write; other digits write none. -/
def readDecimal (text : List Char) : Option ℕ :=
  if text = [] || text.length > maxDigits then none
  else (text.mapM decimalValue).map fun digits => digits.foldl (fun n digit => 10*n + digit) 0

theorem ascii_range {c : Char} (h : c.isDigit = true) : 48 ≤ c.toNat ∧ c.toNat ≤ 57 := by
  simp only [Char.isDigit,Bool.and_eq_true,decide_eq_true_eq] at h
  exact h

theorem isDigit_of_ascii {c : Char} (h : c.isDigit = true) : isDigit c = true := by
  obtain ⟨hlow,hhigh⟩ := ascii_range h
  have hfind : decimalZeros.find? (fun z => z ≤ c.toNat && c.toNat < z + 10) = some 48 := by
    apply List.find?_cons_of_pos
    simp only [Bool.and_eq_true,decide_eq_true_eq]
    omega
  simp [isDigit,decimalValue,hfind]

end Library

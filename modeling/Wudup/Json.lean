import Mathlib.Data.List.Sort
import Mathlib.Data.List.Lex
import Mathlib.Data.Char
import Mathlib.Data.Rat.Defs
import Wudup.Models

/-! Decoded JSON, and the text it is compared by. -/
namespace Wudup

/-- A decoded JSON value; a number written with a fraction or an exponent is what it is printed as. -/
inductive Json where
  | null
  | bool (value : Bool)
  | number (value : ℚ)
  | float (text : Str)
  | string (value : Str)
  | array (values : List Json)
  | object (fields : List (Str × Json))

abbrev Details := List (Str × Json)

def Json.string? : Option Json → Option Str
  | some (.string value) => some value
  | _ => none

/-- The fields of an object; any other value has none. -/
def Json.fields : Option Json → List (Str × Json)
  | some (.object fields) => fields
  | _ => []

def Json.elements : Option Json → List Json
  | some (.array values) => values
  | _ => []

def Json.object? : Json → Option Details
  | .object fields => some fields
  | _ => none

def Json.isArray : Option Json → Bool
  | some (.array _) => true
  | _ => false

inductive JsonToken where
  | word (text : Str)
  | number (value : ℚ)
  | string (value : Str)
  | openArray
  | closeArray
  | openObject
  | closeObject
  deriving DecidableEq, Repr

/-- The letter case of Unicode text. -/
structure CaseRules where
  lower : Str → Str
  casefold : Str → Str

/-- The case of ASCII text. -/
def plainCase : CaseRules := ⟨fun value => value.map Char.toLower,fun value => value.map Char.toLower⟩

mutual

/-- What a value is written as, with the keys of its objects sorted. -/
def Json.dumps : Json → List JsonToken
  | .null => [.word "null".toList]
  | .bool value => [.word (if value then "true".toList else "false".toList)]
  | .number value => [.number value]
  | .float text => [.word text]
  | .string value => [.string value]
  | .array values => .openArray :: dumpsElements values ++ [.closeArray]
  | .object fields =>
    .openObject :: ((dumpsFields fields).insertionSort fun a b => a.1 ≤ b.1).flatMap (fun (key,tokens) =>
      .string key :: tokens) ++ [.closeObject]

def Json.dumpsElements : List Json → List JsonToken
  | [] => []
  | value :: rest => value.dumps ++ Json.dumpsElements rest

def Json.dumpsFields : List (Str × Json) → List (Str × List JsonToken)
  | [] => []
  | (key,value) :: rest => (key,value.dumps) :: Json.dumpsFields rest

end

end Wudup

/-
  Verdure.Serial.JsonText

  Reading JSON text.  Each reader takes a value off the front of a list of characters and
  gives what is left.
-/
import Verdure.Serial.Json

namespace Verdure.Json

/-! ## Blanks and strings -/

/-- The text without blanks in front. -/
def skipBlanks (text : List Char) : List Char :=
  text.dropWhile fun c => c = ' ' ∨ c = '\n' ∨ c = '\t' ∨ c = '\r'

/-- The value of a hexadecimal digit. -/
def hexDigit? (c : Char) : Option Nat :=
  if '0' ≤ c ∧ c ≤ '9' then some (c.toNat - '0'.toNat)
  else if 'a' ≤ c ∧ c ≤ 'f' then some (c.toNat - 'a'.toNat + 10)
  else if 'A' ≤ c ∧ c ≤ 'F' then some (c.toNat - 'A'.toNat + 10)
  else none

/-- The value of four hexadecimal digits. -/
def hex4? (a b c d : Char) : Option Nat := do
  return (((← hexDigit? a) * 16 + (← hexDigit? b)) * 16 + (← hexDigit? c)) * 16 + (← hexDigit? d)

/-- The character that stands after a backslash for another one. -/
def escaped? : Char → Option Char
  | '"' => some '"'
  | '\\' => some '\\'
  | '/' => some '/'
  | 'b' => some '\x08'
  | 'f' => some '\x0c'
  | 'n' => some '\n'
  | 'r' => some '\r'
  | 't' => some '\t'
  | _ => none

/-- The rest of a string whose opening quote is read.  A pair of surrogates is one character;
    a surrogate alone is refused, and so is a control character. -/
def readString (acc : List Char) : List Char → Option (String × List Char)
  | '"' :: rest => some (String.ofList acc.reverse, rest)
  | '\\' :: 'u' :: a :: b :: c :: d :: '\\' :: 'u' :: a' :: b' :: c' :: d' :: rest => do
      let first ← hex4? a b c d
      if 0xd800 ≤ first ∧ first < 0xdc00 then
        let second ← hex4? a' b' c' d'
        if 0xdc00 ≤ second ∧ second < 0xe000 then
          readString (.ofNat (0x10000 + (first - 0xd800) * 0x400 + (second - 0xdc00)) :: acc) rest
        else none
      else if 0xdc00 ≤ first ∧ first < 0xe000 then none
      else
        readString (.ofNat first :: acc) ('\\' :: 'u' :: a' :: b' :: c' :: d' :: rest)
  | '\\' :: 'u' :: a :: b :: c :: d :: rest => do
      let first ← hex4? a b c d
      if 0xd800 ≤ first ∧ first < 0xe000 then none else readString (.ofNat first :: acc) rest
  | '\\' :: c :: rest => do readString ((← escaped? c) :: acc) rest
  | c :: rest => if c.toNat < 0x20 then none else readString (c :: acc) rest
  | [] => none
termination_by text => text.length

/-! ## Numbers -/

/-- The number with the given decimal digits. -/
def digitsValue (digits : List Char) : Nat :=
  digits.foldl (fun n c => n * 10 + (c.toNat - '0'.toNat)) 0

/-- The digits in front of a text, of which there has to be one. -/
def readDigits (text : List Char) : Option (List Char × List Char) :=
  let digits := text.takeWhile Char.isDigit
  if digits.isEmpty then none else some (digits, text.dropWhile Char.isDigit)

/-- The number that an integer in front of a text, a fraction and a power of ten stand for. -/
def ofDecimal (negative : Bool) (digits : Nat) (exponent : Int) : Json :=
  let x := Float.ofScientific digits (exponent < 0) exponent.natAbs
  .real (if negative then -x else x)

/-- A number without its sign.  An integer that fits into 64 bits is kept as an integer; any
    other number, and a negative zero, is read as the nearest binary64 number. -/
def readMagnitude (negative : Bool) (text : List Char) : Option (Json × List Char) := do
  let (whole, rest) ← readDigits text
  if whole.head? = some '0' ∧ whole ≠ ['0'] then none
  else
    let (fraction, rest) ← match rest with
      | '.' :: rest => readDigits rest
      | rest => some ([], rest)
    let (exponent, rest) ← match rest with
      | 'e' :: '-' :: rest | 'E' :: '-' :: rest =>
          (readDigits rest).map fun (e, rest) => (some (-(digitsValue e : Int)), rest)
      | 'e' :: '+' :: rest | 'E' :: '+' :: rest | 'e' :: rest | 'E' :: rest =>
          (readDigits rest).map fun (e, rest) => (some (digitsValue e : Int), rest)
      | rest => some (none, rest)
    let n := digitsValue whole
    if fraction.isEmpty ∧ exponent.isNone then
      if negative then
        return (if 0 < n ∧ n ≤ 0x8000000000000000 then .int (-n) else ofDecimal true n 0, rest)
      else return (if n < 0x10000000000000000 then .int n else ofDecimal false n 0, rest)
    else
      let exponent := exponent.getD 0 - fraction.length
      return (ofDecimal negative (digitsValue (whole ++ fraction)) exponent, rest)

/-! ## Values -/

mutual

/-- A value. -/
def readValue : Nat → List Char → Option (Json × List Char)
  | 0, _ => none
  | fuel + 1, text =>
      match skipBlanks text with
      | 'n' :: 'u' :: 'l' :: 'l' :: rest => some (.null, rest)
      | 't' :: 'r' :: 'u' :: 'e' :: rest => some (.bool true, rest)
      | 'f' :: 'a' :: 'l' :: 's' :: 'e' :: rest => some (.bool false, rest)
      | '"' :: rest => (readString [] rest).map fun (s, rest) => (.str s, rest)
      | '-' :: rest => readMagnitude true rest
      | '[' :: rest =>
          match skipBlanks rest with
          | ']' :: rest => some (.arr [], rest)
          | rest => readItems fuel [] rest
      | '\x7b' :: rest =>
          match skipBlanks rest with
          | '\x7d' :: rest => some (.obj [], rest)
          | rest => readFields fuel [] rest
      | rest => readMagnitude false rest

/-- The rest of a list that has another item. -/
def readItems : Nat → List Json → List Char → Option (Json × List Char)
  | 0, _, _ => none
  | fuel + 1, acc, text => do
      let (item, rest) ← readValue fuel text
      match skipBlanks rest with
      | ',' :: rest => readItems fuel (item :: acc) rest
      | ']' :: rest => return (.arr (item :: acc).reverse, rest)
      | _ => none

/-- The rest of an object that has another field.  Of two fields with one name the later one
    counts. -/
def readFields : Nat → List (String × Json) → List Char → Option (Json × List Char)
  | 0, _, _ => none
  | fuel + 1, acc, text => do
      match skipBlanks text with
      | '"' :: rest =>
          let (name, rest) ← readString [] rest
          match skipBlanks rest with
          | ':' :: rest =>
              let (value, rest) ← readValue fuel rest
              let acc := (name, value) :: acc.filter (·.1 != name)
              match skipBlanks rest with
              | ',' :: rest => readFields fuel acc rest
              | '\x7d' :: rest => return (.obj acc.reverse, rest)
              | _ => none
          | _ => none
      | _ => none

end

/-- The value that a text stands for.  The fuel is enough because at most two readers are
    entered for each character. -/
def parse? (text : String) : Option Json := do
  let chars := text.toList
  let (json, rest) ← readValue (2 * chars.length + 2) chars
  if (skipBlanks rest).isEmpty then some json else none

end Verdure.Json

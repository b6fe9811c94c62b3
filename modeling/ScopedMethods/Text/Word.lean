/-!
# Words of an enumeration

A reader takes the longest run of letters, digits and underscores and looks it
up: by number if numbers are accepted, else by name up to letter case. What it
does not know reads as the given default. What a number is depends on the integer
type that holds the values.
-/

set_option autoImplicit false

namespace ScopedMethods.Text

def isDigitByte (b : UInt8) : Bool := 48 ≤ b && b ≤ 57

def isLetterByte (b : UInt8) : Bool := (65 ≤ b && b ≤ 90) || (97 ≤ b && b ≤ 122)

def isWordByte (b : UInt8) : Bool := isDigitByte b || isLetterByte b || b == 95

def decimalValue (ds : List UInt8) : Nat :=
  ds.foldl (fun n d => 10 * n + (d.toNat - 48)) 0

def foldCase (cs : List Char) : List Char := cs.map Char.toLower

def wordChars (w : List UInt8) : List Char := w.map fun b => Char.ofNat b.toNat

/-- How a text becomes a number of the integer type that holds the values of an
enumeration: `none` if the conversion fails. -/
abbrev Conversion := List UInt8 → Option Nat

namespace Conversion

/-- To an unsigned type of more than one byte, with so many numbers: digits that denote one. -/
def unsigned (size : Nat) : Conversion := fun text =>
  if !text.isEmpty && text.all isDigitByte && decide (decimalValue text < size) then
    some (decimalValue text)
  else none

/-- To a type of one byte: a character by itself, digit or not, stands for its own number. -/
def byte : Conversion
  | [b] => some b.toNat
  | _ => none

end Conversion

abbrev Naming := List String

namespace Naming

def named? (names : Naming) (word : List UInt8) : Option Nat :=
  names.findIdx? fun name => foldCase name.toList = foldCase (wordChars word)

/-- A word that starts with a digit is a number or nothing, when numbers are accepted. -/
def meaning? (convert : Conversion) (names : Naming) (numbers : Bool) :
    List UInt8 → Option Nat
  | [] => none
  | b :: w =>
    if numbers && isDigitByte b then
      match convert (b :: w) with
      | some n => if names.length ≤ n then none else some n
      | none => none
    else names.named? (b :: w)

def readAs (convert : Conversion) (names : Naming) (fallback : Nat) (numbers : Bool)
    (input : List UInt8) : Nat × List UInt8 :=
  ((names.meaning? convert numbers (input.takeWhile isWordByte)).getD fallback,
    input.dropWhile isWordByte)

def readManyAs (convert : Conversion) (names : Naming) (fallback : Nat) (numbers : Bool) :
    Nat → List UInt8 → List Nat × List UInt8
  | 0, input => ([], input)
  | 1, input =>
    let (v, rest) := names.readAs convert fallback numbers input
    ([v], rest)
  | n + 2, input =>
    let (v, rest) := names.readAs convert fallback numbers input
    let (vs, rest) := names.readManyAs convert fallback numbers (n + 1) (rest.drop 1)
    (v :: vs, rest)

def readMany (names : Naming) (fallback : Nat) (numbers : Bool) (count : Nat)
    (input : List UInt8) : List Nat × List UInt8 :=
  names.readManyAs (Conversion.unsigned UInt32.size) fallback numbers count input

end Naming

end ScopedMethods.Text

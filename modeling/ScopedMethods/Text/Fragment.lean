/-!
# Text fragments

Pieces of messages: printed arguments, code positions, paths, the address of
an object, and the part of a text that a reader of terminated text sees.
-/

set_option autoImplicit false

namespace ScopedMethods.Text

inductive Fragment where
  | text (s : String)
  | flag (b : Bool)
  | int (n : Int)

def Fragment.render : Fragment → String
  | .text s => s
  | .flag b => if b then "1" else "0"
  | .int n => toString n

def renderAll (fs : List Fragment) : String := String.join (fs.map Fragment.render)

def appendTo (target : String) (fs : List Fragment) : String := target ++ renderAll fs

def position (file function : String) (line : UInt32) : String :=
  s!"{file}:{function}({line})"

def lastSegment (path : List Char) : List Char :=
  (path.reverse.takeWhile (· != '/')).reverse

def untilNul (s : String) : String :=
  String.ofList (s.toList.takeWhile (· != '\x00'))

def address (identity : Nat) : String :=
  "0x" ++ String.ofList (Nat.toDigits 16 identity)

def digit (b : Bool) : String := (Fragment.flag b).render

/-- The longest beginning that fits in a number of bytes, whole characters or not. -/
def cutBytes (n : Nat) (s : String) : List UInt8 := s.toUTF8.toList.take n

end ScopedMethods.Text

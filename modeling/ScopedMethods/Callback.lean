import ScopedMethods.Failure

/-!
# Callbacks

A place for a function that may be empty; calling it then fails.
-/

set_option autoImplicit false

namespace ScopedMethods

structure Callback where
  body : Option (Int → Int)

namespace Callback

def empty : Callback := ⟨none⟩

def holding (f : Int → Int) : Callback := ⟨some f⟩

def isEmpty (c : Callback) : Bool := c.body.isNone

def call (c : Callback) (n : Int) : Except Failure Int :=
  match c.body with
  | none => .error .emptyCall
  | some f => .ok (f n)

end Callback

end ScopedMethods

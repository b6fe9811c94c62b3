import ScopedMethods.Failure

/-!
# Methods

A method is declared by one type and takes its receiver, of the target type, as
its first argument. Methods are told apart by identity.
-/

set_option autoImplicit false

namespace ScopedMethods

structure TypeId where
  number : Nat
deriving DecidableEq, Repr

def noType : TypeId := ⟨18446744073709551615⟩

inductive Value where
  | nothing
  | text (s : String)
  | number (x : Float)

abbrev Body := List Value → Except Failure Value

namespace Body

def first : Body
  | [] => .error .outOfRange
  | v :: _ => .ok v

def count : Body := fun vs => .ok (.text (toString vs.length))

def blank : Body := fun _ => .ok .nothing

def raise (what : String) : Body := fun _ => .error (.raised what)

def onText (f : String → String) : Body
  | [] => .error .outOfRange
  | .text s :: _ => .ok (.text (f s))
  | _ :: _ => .error .badCast

def onNumber (f : Float → String) : Body
  | [] => .error .outOfRange
  | .number x :: _ => .ok (.text (f x))
  | _ :: _ => .error .badCast

end Body

inductive MethodId where
  | declared (n : Nat)
  | loose (n : Nat)
deriving DecidableEq, Repr

def MethodId.number : MethodId → Nat
  | .declared n => 2 * n
  | .loose n => 2 * n + 1

structure Method where
  id : MethodId
  name : String
  declaring : TypeId
  target : TypeId
  body : Option Body

namespace Method

/-- A method without a body gives nothing. -/
def invoke (m : Method) (args : List Value) : Except Failure Value :=
  match m.body with
  | none => .ok .nothing
  | some f => f args

def text (m : Method) : String :=
  s!"method[{m.name}] declared_by_type[{m.declaring.number}] target_type[{m.target.number}]" ++
    s!"@{Text.address m.id.number}"

end Method

structure MethodDecl where
  name : String
  params : List TypeId
  isPublic : Bool
  isStatic : Bool
  body : Option Body

/-- Only a public static method with a receiver can be laid over a type. -/
def MethodDecl.eligible (d : MethodDecl) : Bool :=
  d.isPublic && d.isStatic && !d.params.isEmpty

end ScopedMethods

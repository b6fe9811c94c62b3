import ScopedMethods.Types.Catalog

/-!
# Candidates

A method that is offered for dispatch on its target type, and the place of a
new candidate among older ones: just before the first whose target is an
ancestor of its own.
-/

set_option autoImplicit false

namespace ScopedMethods

structure Candidate where
  method : Method
  target : TypeId

namespace Candidate

def ofMethod (m : Method) : Candidate := ⟨m, m.target⟩

def cacheable (_ : Candidate) : Bool := false

def same (a b : Candidate) : Bool := a.method.id == b.method.id && a.target == b.target

def sameAll : List Candidate → List Candidate → Bool
  | [], [] => true
  | a :: as, b :: bs => a.same b && sameAll as bs
  | _, _ => false

def text (e : Candidate) : String :=
  s!"entry[{e.method.text}] -> target_type[{e.target.number}]"

end Candidate

/-- Whether the target of `a` is a strict descendant of the target of `b`. -/
def Catalog.moreSpecific (c : Catalog) (a b : Candidate) : Except Failure Bool :=
  if a.target = b.target then .ok false else c.descends a.target b.target

/-- Puts `new` just before the first candidate that it is more specific than,
or last. Fails where a comparison does. -/
def Catalog.place (c : Catalog) (new : Candidate) :
    List Candidate → Except Failure (List Candidate)
  | [] => .ok [new]
  | e :: es =>
    match c.moreSpecific new e with
    | .error f => .error f
    | .ok true => .ok (new :: e :: es)
    | .ok false => (c.place new es).map (e :: ·)

end ScopedMethods

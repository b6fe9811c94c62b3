import ScopedMethods.Session.Basic

/-!
# Steps on types

Registrations and declarations go through the arena, queries to the catalog
with the faults that are set.
-/

set_option autoImplicit false

namespace ScopedMethods.Session

def registerAnswer (form : Form) (r : Reported TypeId) : Answer :=
  match form with
  | .reporting => .registered r
  | .raising => failed r.orRaise .type

def declareAnswer (form : Form) (r : Reported Unit) : Answer :=
  match form with
  | .reporting => .declared r.code
  | .raising => failed r.orRaise fun _ => .flag true

def invokeEligible (ms : List Method) (index : Nat) (args : List String) : Answer :=
  match ms[index]? with
  | none => .failure .outOfRange
  | some m => invoke m args

def typeStep (s : Session) (t : Nat) (step : TypeStep) : Answer × Session :=
  let c := s.arena.catalog
  match step with
  | .register name parent form =>
    match s.act t (.register name parent) with
    | (.registered r, s) => (registerAnswer form r, s)
    | (_, s) => (.nothing, s)
  | .declare on d form =>
    match s.act t (.declare on d) with
    | (.declared r, s) =>
      (declareAnswer form r, { s with names := insertOrdered d.name s.names })
    | (_, s) => (.nothing, s)
  | .find name => (.type ((c.tree.find? name).getD noType), s)
  | .count => (.number c.tree.size, s)
  | .parent ty => (failed (c.parent ty) fun p => .type (p.getD noType), s)
  | .name ty => (failed (c.typeName ty) .text, s)
  | .descends child ancestor => (failed (c.descends child ancestor) .flag, s)
  | .ancestry ty => (failed (c.ancestry ty) .types, s)
  | .eligible ty => (failed (c.methods ty) fun ms => .methods (ms.map methodView), s)
  | .invoke ty index args => (failed (c.methods ty) fun ms => invokeEligible ms index args, s)
  | .fault q ty on => (.nothing, (s.act t (.setFault q ty on)).2)

end ScopedMethods.Session

import ScopedMethods.Types.Tree

/-!
# The catalog

What the scope machinery asks about types: parent, name and eligible methods.
A query fails for an unregistered type, and also where a fault is set. The
walks towards the root go by the parent query alone.
-/

set_option autoImplicit false

namespace ScopedMethods

inductive Query where
  | methods
  | parent
  | name
deriving DecidableEq, Repr

def Query.text : Query → String
  | methods => "methods"
  | parent => "parent"
  | name => "name"

structure Catalog where
  tree : TypeTree
  faults : List (Query × TypeId)

namespace Catalog

def new : Catalog := ⟨TypeTree.new, []⟩

def setFault (c : Catalog) (q : Query) (t : TypeId) (on : Bool) : Catalog :=
  let others := c.faults.filter fun f => f ≠ (q, t)
  { c with faults := if on then (q, t) :: others else others }

/-- A fault comes before the tree is asked. -/
def info (c : Catalog) (q : Query) (t : TypeId) : Except Failure TypeInfo :=
  if c.faults.contains (q, t) then .error (.raised s!"{q.text} fault {t.number}")
  else
    match c.tree.info? t with
    | none => .error (.code .typeNotRegistered)
    | some i => .ok i

def methods (c : Catalog) (t : TypeId) : Except Failure (List Method) :=
  (c.info .methods t).map TypeInfo.methods

def parent (c : Catalog) (t : TypeId) : Except Failure (Option TypeId) :=
  (c.info .parent t).map TypeInfo.parent

def typeName (c : Catalog) (t : TypeId) : Except Failure String :=
  (c.info .name t).map TypeInfo.name

theorem parent_lt {c : Catalog} {t p : TypeId} (h : c.parent t = .ok (some p)) :
    p.number < t.number := by
  unfold parent info at h
  split at h
  · cases h
  · split at h
    · cases h
    · rename_i i hi
      exact c.tree.parent_lt hi (by simpa [Except.map] using h)

def descends (c : Catalog) (child ancestor : TypeId) : Except Failure Bool :=
  match _h : c.parent child with
  | .error e => .error e
  | .ok none => .ok false
  | .ok (some p) => if p = ancestor then .ok true else c.descends p ancestor
termination_by child.number
decreasing_by exact parent_lt _h

def ancestry (c : Catalog) (t : TypeId) : Except Failure (List TypeId) :=
  match _h : c.parent t with
  | .error e => .error e
  | .ok none => .ok []
  | .ok (some p) => (c.ancestry p).map (· ++ [t])
termination_by t.number
decreasing_by exact parent_lt _h

end Catalog

end ScopedMethods

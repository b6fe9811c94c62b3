/-!
# Cleanups

An action under several handles, which runs once, when the last handle goes.
-/

set_option autoImplicit false

namespace ScopedMethods

structure Cleanup where
  /-- Which handles still hold the action. -/
  handles : List Bool
  /-- How often the action has run. -/
  runs : Nat
deriving DecidableEq, Repr

namespace Cleanup

/-- One handle and its copies, all holding. -/
def start (copies : Nat) : Cleanup := ⟨List.replicate (copies + 1) true, 0⟩

def drop (i : Nat) (c : Cleanup) : Cleanup :=
  match c.handles[i]? with
  | some true =>
    let handles := c.handles.set i false
    ⟨handles, if handles.any id then c.runs else c.runs + 1⟩
  | _ => c

def dropAll (c : Cleanup) : Cleanup :=
  (List.range c.handles.length).foldl (fun c i => c.drop i) c

/-- How often the action has run: after the first handle goes, after each of
the given copies goes, and at the end. -/
def history (copies : Nat) (order : List Nat) : List Nat :=
  let first := (start copies).drop 0
  let (last, counts) := order.foldl
    (fun (c, counts) i => let c := c.drop (i + 1); (c, counts ++ [c.runs])) (first, [first.runs])
  counts ++ [last.dropAll.runs]

end Cleanup

end ScopedMethods

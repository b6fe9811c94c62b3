import ScopedMethods.Slots
import ScopedMethods.Log.Component
import ScopedMethods.Log.Severity

/-!
# Verbosity

The gravity from which statements are logged: a default, overridden for single
components, and the names that components print under.
-/

set_option autoImplicit false

namespace ScopedMethods.Log

structure Verbosity where
  base : Severity
  overrides : Slots Component Severity
  overridden : Bool
  names : Slots Component String

namespace Verbosity

def new (base : Severity) : Verbosity := ⟨base, [], false, []⟩

def copy (v : Verbosity) : Verbosity :=
  { v with overridden := !v.overrides.isEmpty }

/-- The overrides are looked at only where there is one and a component. -/
def admits (v : Verbosity) (s : Severity) (c : Option Component) : Bool :=
  match c, v.overridden with
  | some c, true => decide (s ≤ (v.overrides.get? c).getD v.base)
  | _, _ => decide (s ≤ v.base)

def setBase (s : Severity) (reset : Bool) (v : Verbosity) : Verbosity :=
  if reset then { v with base := s, overrides := [], overridden := false }
  else { v with base := s }

def setFor (c : Component) (s : Severity) (v : Verbosity) : Verbosity :=
  { v with overrides := v.overrides.set c s, overridden := true }

/-- A component that has a name already keeps it. -/
def nameComponents (table : List (Component × String)) (before : String)
    (v : Verbosity) : Verbosity :=
  { v with names := table.foldl (fun ns p => ns.setNew p.1 (before ++ p.2)) v.names }

def componentText (v : Verbosity) : Option Component → String
  | none => ""
  | some c => (v.names.get? c).getD (toString c.value)

end Verbosity

end ScopedMethods.Log

/-!
# Components

A statement names the component it comes from: a value of some enumeration, or
nothing. Values of different enumerations are different components, also where
their numbers agree.
-/

set_option autoImplicit false

namespace ScopedMethods.Log

structure Component where
  family : Nat
  value : UInt32
deriving DecidableEq, Repr

namespace Component

def ownFamily : Nat := 0

def own (value : UInt32) : Component := ⟨ownFamily, value⟩

def isOwn (c : Component) : Bool := c.family == ownFamily

def uncategorized : Component := own 0
def logging : Component := own 1
def errors : Component := own 2
def utilities : Component := own 3
def metadata : Component := own 4
def scopes : Component := own 5

def table : List (Component × String) :=
  [(uncategorized, "UNCAT"), (logging, "LOG"), (errors, "ERROR"), (utilities, "UTIL"),
   (metadata, "META"), (scopes, "SCOPE")]

def sentinel : Nat := table.length

def name? (c : Component) : Option String :=
  (table.find? fun p => p.1 = c).map Prod.snd

end Component

/-- A logger, by its number, and the component of those who log through it. -/
structure Context where
  logger : Nat
  component : Option Component
deriving DecidableEq, Repr

def Context.exchange (p : Context × Context) : Context × Context := (p.2, p.1)

end ScopedMethods.Log

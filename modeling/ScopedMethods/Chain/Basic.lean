import ScopedMethods.Chain.Candidate

/-!
# Chains

The candidates for one name at one level of nesting, over the chains of outer
levels that they extend. Chains and usage counters are told apart by identity.
-/

set_option autoImplicit false

namespace ScopedMethods

structure ChainId where
  number : Nat
deriving DecidableEq, Repr

structure CounterId where
  number : Nat
deriving DecidableEq, Repr

/-- Levels of nesting; the outermost scope is at level 1. -/
abbrev Level := UInt32

structure Chain where
  name : String
  level : Level
  entries : List Candidate
  counter : CounterId
  /-- The chains that this one shadows, the nearest first. -/
  shadows : List ChainId

namespace Chain

def blank : Chain := ⟨"", 0, [], ⟨0⟩, []⟩

def size (c : Chain) : Nat := c.entries.length

def previous? (c : Chain) : Option ChainId := c.shadows.head?

def cacheable (c : Chain) : Bool := c.entries.any Candidate.cacheable

def text (c : Chain) (id : ChainId) : String :=
  let shadowed := match c.previous? with
    | none => ""
    | some p => s!" shadows@{Text.address p.number}"
  s!"chain[{c.name}] level[{c.level}] size[{c.size}]@{Text.address id.number}" ++ shadowed

end Chain

end ScopedMethods

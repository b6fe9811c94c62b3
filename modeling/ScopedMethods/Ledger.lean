import ScopedMethods.Report

/-!
# The ledger

One usage counter for each name that was ever laid over a type, and the number
of active scopes, shared by the scope stacks of all threads.
-/

set_option autoImplicit false

namespace ScopedMethods

structure Ledger where
  id : Nat
  counters : Slots String CounterId
  /-- The number of active scopes; it wraps around. -/
  active : UInt64

namespace Ledger

def new (id : Nat) : Ledger := ⟨id, [], 0⟩

/-- The counter of a name, made at the first call. -/
def usage (t : Caller) (name : String) (s : Store) (l : Ledger) : CounterId × Store × Ledger :=
  match l.counters.get? name with
  | some c => (c, s, l)
  | none =>
    let (c, s) := s.newCounter
    let l := { l with counters := l.counters.set name c }
    (c, s.note t (.counterCreated l.id name l.counters.length), l)

def count (s : Store) (l : Ledger) (name : String) : Int32 :=
  match l.counters.get? name with
  | none => 0
  | some c => s.counter c

def size (l : Ledger) : Nat := l.counters.length

end Ledger

end ScopedMethods

import ScopedMethods.Session.Answer

/-!
# Sessions

An arena with objects in named slots: chains kept from look-ups, and scope
stacks, a ledger, chains, candidates, counters and tenancies by themselves.
-/

set_option autoImplicit false

namespace ScopedMethods

structure Session where
  arena : Arena
  /-- The names of all methods ever declared, tried or not, in order. -/
  names : List String
  kept : Slots String (Option ChainId)
  ledger : Ledger
  stackTable : Slots String ScopeStack
  nextStack : Nat
  counters : Slots String CounterId
  candidates : Slots String Candidate
  nextMethod : Nat
  chains : Slots String ChainId
  tenancies : Slots String Tenancy
  nextTenancy : Nat
  tenants : Slots Nat Tenant
  nextTenant : Nat
  departed : List Nat

namespace Session

def new (verbosity : Option Log.Verbosity) : Session where
  arena := Arena.new verbosity
  names := []
  kept := []
  ledger := Ledger.new 0
  stackTable := []
  nextStack := 0
  counters := []
  candidates := []
  nextMethod := 0
  chains := []
  tenancies := []
  nextTenancy := 0
  tenants := []
  nextTenant := 1
  departed := []

/-- Insertion into an ordered list without repeats. -/
def insertOrdered {α : Type} [LT α] [DecidableRel (α := α) (· < ·)] [DecidableEq α] (x : α) :
    List α → List α
  | [] => [x]
  | y :: ys => if x < y then x :: y :: ys else if x = y then y :: ys else y :: insertOrdered x ys

def store (s : Session) : Store := s.arena.store

def setStore (s : Session) (m : Store) : Session := { s with arena := { s.arena with store := m } }

def caller (s : Session) (t : Nat) : Caller := s.arena.caller t

def act (s : Session) (t : Nat) (a : Act) : Ending × Session :=
  let (e, arena) := s.arena.step t a
  (e, { s with arena := arena })

def tally (s : Session) (r : Realm) : Tally where
  active := r.ledger.active
  live := r.liveStacks
  usage := (s.names.map fun n => (n, r.usageCount s.store n)).filter (·.2 ≠ 0)

def emptyTally : Tally := ⟨0, 0, []⟩

def tallyOf (s : Session) (key : Nat) : Tally :=
  match s.arena.realm? key with
  | none => emptyTally
  | some r => s.tally r

def chainAnswer (s : Session) (id : Option ChainId) : Answer :=
  .chain (id.map (chainView s.store))

def failed {α : Type} (x : Except Failure α) (f : α → Answer) : Answer :=
  match x with
  | .error e => .failure e
  | .ok v => f v

def invoke (m : Method) (args : List String) : Answer :=
  failed (m.invoke (args.map .text)) .value

end Session

end ScopedMethods

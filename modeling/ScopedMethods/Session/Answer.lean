import ScopedMethods.Session.Step

/-!
# Answers of a session

What a step shows: plain values, failures, and views of chains, candidates,
states and counts at the time of the answer.
-/

set_option autoImplicit false

namespace ScopedMethods.Session

structure Tally where
  active : UInt64
  live : Nat
  usage : List (String × Int32)

structure ChainView where
  name : String
  level : Level
  usage : Int32
  entries : List (TypeId × TypeId)
  cacheable : Bool
  /-- Level and size of each shadowed chain, the nearest first. -/
  shadows : List (Level × Nat)
  text : String

def ChainView.size (v : ChainView) : Nat := v.entries.length

structure MethodView where
  name : String
  declaring : TypeId
  target : TypeId
  text : String

structure CandidateView where
  method : MethodView
  target : TypeId
  cacheable : Bool
  text : String

structure TenantView where
  id : Nat
  tenant : Tenant

/-- A registered state: its number, the nickname of its thread when it was
made, whether it is the asking thread's, whether a request is pending. -/
structure RegisteredView where
  id : Nat
  nickname : String
  own : Bool
  pending : Bool

inductive Answer where
  | nothing
  | flag (b : Bool)
  | number (n : Nat)
  | count (n : Int32)
  | text (s : String)
  | failure (f : Failure)
  | noScope
  | levelZero
  | type (t : TypeId)
  | types (ts : List TypeId)
  | value (v : Value)
  | registered (r : Reported TypeId)
  | declared (code : Option ErrorCode)
  | methods (ms : List MethodView)
  | options (o : Options)
  | tally (t : Tally)
  | entered (t : Tally)
  | refused (f : Failure) (t : Tally)
  | left (result : Datum) (t : Tally)
  | unwound (message : String) (scopes : Nat) (t : Tally)
  | chain (v : Option ChainView)
  | same (b : Bool) (equal : Option Bool)
  | counter (value : Int32) (stable : Bool)
  | view (level : Level) (here : Bool) (chains : List ChainView) (t : Tally)
  | scope (code : Option (Option ErrorCode)) (level : Level) (active : UInt64)
  | active (n : UInt64)
  | candidate (v : CandidateView)
  | differ (same : Bool)
  | nicknamed (name : String) (system : Option (List UInt8))
  | tenant (v : Option TenantView)
  | register (rs : List RegisteredView)
  | custodyName (nickname text : String)

/-- The answer to a step, the states destroyed in it in order of number, and
the lines logged. -/
structure Reply where
  answer : Answer
  destroyed : List Nat
  lines : List (List UInt8)

def methodView (m : Method) : MethodView := ⟨m.name, m.declaring, m.target, m.text⟩

def candidateView (e : Candidate) : CandidateView :=
  ⟨methodView e.method, e.target, e.cacheable, e.text⟩

def chainView (s : Store) (id : ChainId) : ChainView :=
  let c := s.chain id
  { name := c.name
    level := c.level
    usage := s.usage id
    entries := c.entries.map fun e => (e.method.declaring, e.target)
    cacheable := c.cacheable
    shadows := c.shadows.map fun p => ((s.chain p).level, (s.chain p).size)
    text := c.text id }

end ScopedMethods.Session

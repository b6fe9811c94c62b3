import ScopedMethods.Store

/-!
# Custody

One state per thread, made at the thread's first access and its own from then
on. A state goes when its thread releases it, when its thread next looks after
a reclaim request and the state may be reclaimed, when its thread exits, or
when the custody closes.

A thread's context outlives its state and may outlive the custody. The register
holds the states that are still to be destroyed; who takes a state off the
register destroys it.
-/

set_option autoImplicit false

namespace ScopedMethods

structure TenantContext where
  state : Option Nat
  /-- Set by a reclaim request and cleared by the thread itself. -/
  reclaim : Bool
deriving DecidableEq, Repr

structure Registration where
  state : Nat
  owner : Nat
  nickname : String
deriving DecidableEq, Repr

structure Custody where
  name : CustodyName
  contexts : Slots Nat TenantContext
  /-- The states to be destroyed, the latest first. -/
  register : List Registration
  closed : Bool

/-- How the states of a custody are made, judged and destroyed. The states
themselves live in `ω`, under their numbers. -/
structure Keeper (ω : Type) where
  create : Caller → ω → Outcome ω Nat
  destroy : Caller → Nat → ω → ω
  reclaimable : ω → Nat → Bool
  note : Caller → Event → ω → ω

namespace Custody

variable {ω : Type}

def new (name : CustodyName) : Custody := ⟨name, [], [], false⟩

def registered (c : Custody) (state : Nat) : Bool := c.register.any (·.state = state)

def unregister (c : Custody) (state : Nat) : Custody :=
  { c with register := c.register.filter (·.state ≠ state) }

def setContext (c : Custody) (thread : Nat) (x : TenantContext) : Custody :=
  { c with contexts := c.contexts.set thread x }

def held? (c : Custody) (thread : Nat) : Option Nat :=
  (c.contexts.get? thread).bind TenantContext.state

def pending (c : Custody) (thread : Nat) : Bool :=
  (c.contexts.get? thread).elim false TenantContext.reclaim

def size (c : Custody) : Nat := c.register.length

def release (k : Keeper ω) (t : Caller) (state : Nat) (cause : ReleaseCause)
    (c : Custody) (w : ω) : Custody × ω :=
  let w := k.note t (.stateReleased c.name state t.thread cause) w
  let w := if c.registered state then k.destroy t state w else w
  ((c.unregister state).setContext t.thread ⟨none, c.pending t.thread⟩, w)

/-- Answers a reclaim request, which is spent whether or not the state goes. -/
def honor (k : Keeper ω) (t : Caller) (state : Nat) (c : Custody) (w : ω) : Custody × ω :=
  let c := c.setContext t.thread ⟨some state, false⟩
  if k.reclaimable w state then release k t state .reclaimRequest c w
  else (c, k.note t (.statePinned c.name state) w)

def peek (k : Keeper ω) (t : Caller) (c : Custody) (w : ω) : Option Nat × Custody × ω :=
  match c.held? t.thread with
  | none => (none, c, w)
  | some state =>
    if c.pending t.thread then
      let (c, w) := honor k t state c w
      (c.held? t.thread, c, w)
    else (some state, c, w)

/-- Makes the thread's state. If that fails, the thread has a context without a state. -/
def house (k : Keeper ω) (t : Caller) (c : Custody) (w : ω) :
    Except Failure Nat × Custody × ω :=
  let c := c.setContext t.thread ⟨none, false⟩
  match k.create t w with
  | (.error f, w) => (.error f, c, w)
  | (.ok state, w) =>
    let c := c.setContext t.thread ⟨some state, false⟩
    let w := k.note t (.stateAdded c.name state t.thread t.nickname) w
    (.ok state, { c with register := ⟨state, t.thread, t.nickname⟩ :: c.register }, w)

def obtain (k : Keeper ω) (t : Caller) (c : Custody) (w : ω) :
    Except Failure Nat × Custody × ω :=
  match peek k t c w with
  | (some state, c, w) => (.ok state, c, w)
  | (none, c, w) => house k t c w

def surrender (k : Keeper ω) (t : Caller) (c : Custody) (w : ω) : Bool × Custody × ω :=
  match c.held? t.thread with
  | none => (false, c, w)
  | some state =>
    let (c, w) := release k t state .explicitRelease c w
    (true, c, w)

def flagAll (c : Custody) : Custody :=
  c.register.foldl
    (fun c r => c.setContext r.owner ⟨c.held? r.owner, true⟩) c

def requestReclaim (k : Keeper ω) (t : Caller) (c : Custody) (w : ω) : Nat × Custody × ω :=
  (c.size, c.flagAll, k.note t (.reclaimRequested c.name c.size) w)

/-- Destroys all states. The calling thread's context goes too; other threads
keep theirs until they exit. -/
def close (k : Keeper ω) (t : Caller) (c : Custody) (w : ω) : Custody × ω :=
  let w := k.note t (.custodyClosing c.name) w
  let w := c.register.foldl
    (fun w r => k.note t (.stateDeleted c.name r.state r.owner r.nickname) w) w
  let w := c.register.foldl (fun w r => k.destroy t r.state w) w
  ({ c with register := [], contexts := c.contexts.erase t.thread, closed := true }, w)

/-- The end of a thread: its context goes, and its state if that is still registered. -/
def exit (k : Keeper ω) (t : Caller) (c : Custody) (w : ω) : Custody × ω :=
  match c.held? t.thread with
  | none => ({ c with contexts := c.contexts.erase t.thread }, w)
  | some state =>
    let w := if !c.closed && c.registered state then k.destroy t state w else w
    ({ c.unregister state with contexts := c.contexts.erase t.thread }, w)

end Custody

end ScopedMethods

import ScopedMethods.Custody
import ScopedMethods.Options
import ScopedMethods.ScopeStack

/-!
# Realms

A realm runs units of work under scopes. Each thread has its own scope stack in
a realm, in the realm's custody; the ledger is common to all of them. While a
thread is inside a scope its stack is pinned.
-/

set_option autoImplicit false

namespace ScopedMethods

/-- The ledger and the live scope stacks of a realm, at work on the store. -/
structure Grounds where
  store : Store
  ledger : Ledger
  stackTable : Slots Nat ScopeStack
  nextStack : Nat

structure Realm where
  id : Nat
  options : Options
  ledger : Ledger
  stackTable : Slots Nat ScopeStack
  nextStack : Nat
  custody : Custody

namespace Grounds

def note (t : Caller) (e : Event) (g : Grounds) : Grounds :=
  { g with store := g.store.note t e }

def onStack (id : Nat) (f : Site → Site) (g : Grounds) : Grounds :=
  match g.stackTable.get? id with
  | none => g
  | some stack =>
    let w := f ⟨g.store, g.ledger, stack⟩
    { g with store := w.store, ledger := w.ledger, stackTable := g.stackTable.set id w.stack }

def create (o : Options) (t : Caller) (g : Grounds) : Outcome Grounds Nat :=
  let id := g.nextStack
  let g := { g with
    stackTable := g.stackTable.set id (ScopeStack.new id o.maxDepth)
    nextStack := id + 1 }
  (.ok id, g.onStack id (Site.created t))

def destroy (t : Caller) (id : Nat) (g : Grounds) : Grounds :=
  let g := g.onStack id (Site.destroy t)
  { g with stackTable := g.stackTable.erase id }

def levelOf (g : Grounds) (id : Nat) : Level := (g.stackTable.get? id).elim 0 ScopeStack.level

/-- A scope stack may go while no scope is open on it. -/
def keeper (o : Options) : Keeper Grounds where
  create := create o
  destroy := destroy
  reclaimable g id := g.levelOf id = 0
  note := note

end Grounds

namespace Realm

def new (id : Nat) (options : Options) : Realm where
  id := id
  options := options
  ledger := Ledger.new id
  stackTable := []
  nextStack := 0
  custody := Custody.new ⟨"scope_stacks", id, "ScopeStack"⟩

def create (id : Nat) (options : Options) (t : Caller) (s : Store) : Realm × Store :=
  let r := new id options
  let s := s.note t (.custodyCreated r.custody.name)
  (r, s.note t (.realmCreated id options.text))

def keeper (r : Realm) : Keeper Grounds := Grounds.keeper r.options

def grounds (r : Realm) (s : Store) : Grounds := ⟨s, r.ledger, r.stackTable, r.nextStack⟩

def settle (r : Realm) (c : Custody) (g : Grounds) : Realm :=
  { r with ledger := g.ledger, stackTable := g.stackTable, nextStack := g.nextStack, custody := c }

def stack? (r : Realm) (id : Nat) : Option ScopeStack := r.stackTable.get? id

def peek (t : Caller) (r : Realm) (s : Store) : Option ScopeStack × Realm × Store :=
  let (id, c, g) := r.custody.peek r.keeper t (r.grounds s)
  let r := r.settle c g
  (id.bind r.stack?, r, g.store)

def lookup (t : Caller) (name : String) (r : Realm) (s : Store) :
    Option ChainId × Realm × Store :=
  let (stack, r, s) := r.peek t s
  match stack with
  | none => (none, r, s)
  | some stack => (if stack.level = 0 then none else stack.chain? name, r, s)

def currentLevel (t : Caller) (r : Realm) (s : Store) : Level × Realm × Store :=
  let (stack, r, s) := r.peek t s
  (stack.elim 0 ScopeStack.level, r, s)

def activeAnywhere (r : Realm) : Bool := r.ledger.active != 0

/-- Whether the calling thread is inside a scope. If no thread is, its own
stack is not looked at. -/
def activeHere (t : Caller) (r : Realm) (s : Store) : Bool × Realm × Store :=
  if r.ledger.active = 0 then (false, r, s)
  else
    let (level, r, s) := r.currentLevel t s
    (level != 0, r, s)

def usageCount (r : Realm) (s : Store) (name : String) : Int32 := r.ledger.count s name

def nameUsage (t : Caller) (name : String) (r : Realm) (s : Store) :
    CounterId × Realm × Store :=
  let (c, s, l) := r.ledger.usage t name s
  (c, { r with ledger := l }, s)

def liveStacks (r : Realm) : Nat := r.custody.size

def requestReclaim (t : Caller) (r : Realm) (s : Store) : Nat × Realm × Store :=
  let (n, c, g) := r.custody.requestReclaim r.keeper t (r.grounds s)
  (n, r.settle c g, g.store)

def leave (t : Caller) (id : Nat) (r : Realm) (s : Store) : Realm × Store :=
  let g := (r.grounds s).onStack id (Site.leave t)
  if g.levelOf id = 0 && r.options.releaseIdle then
    let (_, c, g) := r.custody.surrender r.keeper t g
    (r.settle c g, g.store)
  else (r.settle r.custody g, g.store)

def atStack {α : Type} (id : Nat) (f : Site → Outcome Site α) (r : Realm) (s : Store) :
    Except Failure α × Realm × Store :=
  match r.stackTable.get? id with
  | none => (.error .outOfRange, r, s)
  | some stack =>
    let (result, w) := f ⟨s, r.ledger, stack⟩
    (result, { r with ledger := w.ledger, stackTable := r.stackTable.set id w.stack }, w.store)

def layTypes (c : Catalog) (t : Caller) (types : List TypeId) (realm : Nat) (w : Site) :
    Outcome Site Unit :=
  (w.note t (.typesLaid realm types.length w.stack.level)).layAll c t types

/-- Enters a scope that lays the given types, and gives the stack that the
scope is on. A scope that cannot be entered leaves nothing behind. -/
def enter (c : Catalog) (t : Caller) (types : List TypeId) (r : Realm) (s : Store) :
    Except Failure Nat × Realm × Store :=
  let (stack, custody, g) := r.custody.obtain r.keeper t (r.grounds s)
  let r := r.settle custody g
  match stack with
  | .error f => (.error f, r, g.store)
  | .ok id =>
    match r.atStack id (fun w => let (e, w) := w.enter t; (e.orRaise, w)) g.store with
    | (.error f, r, s) => (.error f, r, s)
    | (.ok (), r, s) =>
      match r.atStack id (layTypes c t types r.id) s with
      | (.error f, r, s) =>
        let (r, s) := r.leave t id s
        (.error f, r, s)
      | (.ok (), r, s) => (.ok id, r, s)

/-- Runs a body inside a scope. The scope is left however the body ends. -/
def within {α : Type} (c : Catalog) (t : Caller) (types : List TypeId)
    (body : Realm → Store → Except Failure α × Realm × Store) (r : Realm) (s : Store) :
    Except Failure α × Realm × Store :=
  match r.enter c t types s with
  | (.error f, r, s) => (.error f, r, s)
  | (.ok id, r, s) =>
    let (result, r, s) := body r s
    let (r, s) := r.leave t id s
    (result, r, s)

def threadExit (t : Caller) (r : Realm) (s : Store) : Realm × Store :=
  let (c, g) := r.custody.exit r.keeper t (r.grounds s)
  (r.settle c g, g.store)

/-- The end of a realm: the stacks that threads still have are destroyed. -/
def destroy (t : Caller) (r : Realm) (s : Store) : Realm × Store :=
  let s := s.note t (.realmClosing r.id r.ledger.active.toNat r.ledger.size)
  let (c, g) := r.custody.close r.keeper t (r.grounds s)
  (r.settle c g, g.store)

end Realm

end ScopedMethods

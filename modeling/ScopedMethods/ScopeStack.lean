import ScopedMethods.Ledger

/-!
# Scope stacks

The nested scopes of one thread. Each scope lays the methods of some types over
the names in use: the first time a name is touched at a level, a new chain
shadows the one so far; leaving the scope brings that one back.
-/

set_option autoImplicit false

namespace ScopedMethods

structure ScopeStack where
  id : Nat
  /-- The greatest level, or 0 for no limit. -/
  maxDepth : Level
  level : Level
  /-- The chain of each name in use. -/
  chains : Slots String ChainId

/-- A scope stack at work, with the ledger and the store that it shares. -/
structure Site where
  store : Store
  ledger : Ledger
  stack : ScopeStack

namespace ScopeStack

def new (id : Nat) (maxDepth : Level) : ScopeStack := ⟨id, maxDepth, 0, []⟩

def chain? (s : ScopeStack) (name : String) : Option ChainId := s.chains.get? name

end ScopeStack

namespace Site

def note (w : Site) (t : Caller) (e : Event) : Site := { w with store := w.store.note t e }

def created (t : Caller) (w : Site) : Site := w.note t (.stackCreated w.stack.id t.thread)

def full (w : Site) : Bool :=
  w.stack.maxDepth != 0 && decide (w.stack.maxDepth ≤ w.stack.level)

def beginScope (t : Caller) (x : Coded Site) : Unit × Coded Site :=
  let w := x.state
  if w.full then
    let r := Refusal.atMaximum w.stack.level
    let x := x.update fun w => { w with store := w.store.refuse t w.stack.id r }
    ((), x.write r.code)
  else
    let level := w.stack.level + 1
    let x := x.update fun w => { w with
      stack := { w.stack with level := level }
      ledger := { w.ledger with active := w.ledger.active + 1 } }
    ((), (x.update (·.note t (.scopeEntered w.stack.id level))).clear)

def enter (t : Caller) (w : Site) : Reported Unit × Site := reported (beginScope t) w

theorem enter_eq (t : Caller) (w : Site) : w.enter t =
    if w.full then
      (⟨(), some (Refusal.atMaximum w.stack.level).code⟩,
        { w with store := w.store.refuse t w.stack.id (.atMaximum w.stack.level) })
    else
      (.success (), note { w with
          stack := { w.stack with level := w.stack.level + 1 }
          ledger := { w.ledger with active := w.ledger.active + 1 } }
        t (.scopeEntered w.stack.id (w.stack.level + 1))) := by
  simp only [enter, reported, beginScope]
  by_cases h : w.full = true
  · rw [if_pos h, if_pos h]
    rfl
  · rw [if_neg h, if_neg h]
    rfl

/-- The chain of a name at the present level: the one there is, or a new one
over the chain of an outer level. -/
def touch (t : Caller) (name : String) (w : Site) : ChainId × Site :=
  match w.stack.chain? name with
  | some id =>
    if (w.store.chain id).level = w.stack.level then (id, w)
    else
      let (new, store) := w.store.shadow name w.stack.level id
      (new, { w with
        store := store.note t (.chainCreated w.stack.id new (store.chain new))
        stack := { w.stack with chains := w.stack.chains.set name new } })
  | none =>
    let (counter, store, ledger) := Ledger.usage t name w.store w.ledger
    let (new, store) := store.firstChain name w.stack.level counter
    (new, {
      ledger := ledger
      store := store.note t (.chainCreated w.stack.id new (store.chain new))
      stack := { w.stack with chains := w.stack.chains.set name new } })

def offer (c : Catalog) (t : Caller) (m : Method) (w : Site) : Outcome Site Unit :=
  let (id, w) := w.touch t m.name
  match w.store.add c id (Candidate.ofMethod m) with
  | (.error f, store) => (.error f, { w with store := store })
  | (.ok (), store) =>
    (.ok (), { w with
      store := store.note t
        (.candidateAdded w.stack.id m id (store.chain id) (store.usage id)) })

def offerAll (c : Catalog) (t : Caller) : List Method → Site → Outcome Site Unit
  | [], w => (.ok (), w)
  | m :: ms, w =>
    match w.offer c t m with
    | (.error f, w) => (.error f, w)
    | (.ok (), w) => offerAll c t ms w

def offerTypes (c : Catalog) (t : Caller) : List TypeId → Site → Outcome Site Unit
  | [], w => (.ok (), w)
  | ty :: tys, w =>
    match c.methods ty with
    | .error f => (.error f, w)
    | .ok ms =>
      match w.offerAll c t ms with
      | (.error f, w) => (.error f, w)
      | (.ok (), w) => offerTypes c t tys w

/-- Reports that a type is laid. Its name is asked for only if the report is logged. -/
def announce (c : Catalog) (t : Caller) (ty : TypeId) (ancestors : Nat) (w : Site) :
    Outcome Site Unit :=
  if w.store.journal.admits .trace (some .scopes) then
    match c.typeName ty with
    | .error f => (.error f, w)
    | .ok name => (.ok (), w.note t (.typeLaid w.stack.id w.stack.level name ancestors))
  else (.ok (), w)

/-- Lays a type: the methods of its ancestry, the most general type first. -/
def lay (c : Catalog) (t : Caller) (ty : TypeId) (w : Site) : Outcome Site Unit :=
  match c.ancestry ty with
  | .error f => (.error f, w)
  | .ok line =>
    match w.announce c t ty line.length with
    | (.error f, w) => (.error f, w)
    | (.ok (), w) => w.offerTypes c t line

def layAll (c : Catalog) (t : Caller) : List TypeId → Site → Outcome Site Unit
  | [], w => (.ok (), w)
  | ty :: tys, w =>
    match w.lay c t ty with
    | (.error f, w) => (.error f, w)
    | (.ok (), w) => layAll c t tys w

def surplus (s : Store) (id : ChainId) : Nat :=
  let c := s.chain id
  match c.previous? with
  | none => c.size
  | some p => c.size - (s.chain p).size

/-- Takes back the chains of one level: each gives way to the one it shadows,
and its surplus is taken off its counter. -/
def revert (level : Level) (s : Store) :
    Slots String ChainId → Store × Slots String ChainId × Nat
  | [] => (s, [], 0)
  | (name, id) :: rest =>
    let c := s.chain id
    if c.level = level then
      let n := Int32.ofNat (surplus s id)
      let (s, rest, k) := revert level (s.count c.counter (-n)) rest
      match c.previous? with
      | none => (s, rest, k + 1)
      | some p => (s, (name, p) :: rest, k + 1)
    else
      let (s, rest, k) := revert level s rest
      (s, (name, id) :: rest, k)

def leave (t : Caller) (w : Site) : Site :=
  let (store, chains, reverted) := revert w.stack.level w.store w.stack.chains
  let level := w.stack.level - 1
  { store := store.note t (.scopeLeft w.stack.id reverted level)
    ledger := { w.ledger with active := w.ledger.active - 1 }
    stack := { w.stack with level := level, chains := chains } }

def leaveTimes (t : Caller) : Nat → Site → Site
  | 0, w => w
  | n + 1, w => leaveTimes t n (w.leave t)

def destroy (t : Caller) (w : Site) : Site :=
  let unwound :=
    if w.stack.level = 0 then w
    else leaveTimes t w.stack.level.toNat (w.note t (.stackAbandoned w.stack.id w.stack.level))
  unwound.note t (.stackDestroyed w.stack.id)

end Site

end ScopedMethods

import ScopedMethods.Session.Basic

/-!
# Steps on parts by themselves

Scope stacks over the session's own ledger, that ledger, and single chains,
candidates and counters.
-/

set_option autoImplicit false

namespace ScopedMethods.Session

def site (s : Session) (stack : ScopeStack) : Site := ⟨s.store, s.ledger, stack⟩

def setSite (s : Session) (slot : String) (w : Site) : Session :=
  { s.setStore w.store with ledger := w.ledger, stackTable := s.stackTable.set slot w.stack }

def scopeAnswer (code : Option (Option ErrorCode)) (w : Site) : Answer :=
  .scope code w.stack.level w.ledger.active

def destroyStack (s : Session) (t : Nat) (slot : String) : Session :=
  match s.stackTable.get? slot with
  | none => s
  | some stack =>
    let s := s.setSite slot ((s.site stack).destroy (s.caller t))
    { s with stackTable := s.stackTable.erase slot }

def createStack (s : Session) (t : Nat) (slot : String) (maxDepth : Level) : Session :=
  let w := (s.site (ScopeStack.new s.nextStack maxDepth)).created (s.caller t)
  let s := (s.setStore w.store).destroyStack t slot
  { s with stackTable := s.stackTable.set slot w.stack, nextStack := s.nextStack + 1 }

def stackStep (s : Session) (t : Nat) (slot : String) (step : StackStep) : Answer × Session :=
  let c := s.caller t
  match step, s.stackTable.get? slot with
  | .create maxDepth, _ => (.nothing, s.createStack t slot maxDepth)
  | _, none => (.failure .outOfRange, s)
  | .enter form, some stack =>
    let (r, w) := (s.site stack).enter c
    let answer := match form with
      | .reporting => scopeAnswer (some r.code) w
      | .raising => failed r.orRaise fun _ => scopeAnswer none w
    (answer, s.setSite slot w)
  | .lay ty, some stack =>
    if stack.level = 0 then (.levelZero, s)
    else
      let (r, w) := (s.site stack).lay s.arena.catalog c ty
      (failed r fun _ => scopeAnswer none w, s.setSite slot w)
  | .leave, some stack =>
    if stack.level = 0 then (.levelZero, s)
    else
      let w := (s.site stack).leave c
      (scopeAnswer none w, s.setSite slot w)
  | .chain name keep, some stack =>
    let id := stack.chain? name
    let s' := match keep with
      | none => s
      | some k => { s with kept := s.kept.set k id }
    (s.chainAnswer id, s')
  | .destroy, some _ =>
    let s := s.destroyStack t slot
    (.active s.ledger.active, s)

def usage (s : Session) (t : Nat) (name : String) : CounterId × Session :=
  let (id, m, l) := s.ledger.usage (s.caller t) name s.store
  (id, { s.setStore m with ledger := l })

def ledgerStep (s : Session) (t : Nat) (step : LedgerStep) : Answer × Session :=
  match step with
  | .add name n =>
    let (id, s) := s.usage t name
    let s := s.setStore (s.store.count id n)
    (.counter (s.store.counter id) true, s)
  | .count name => (.count (s.ledger.count s.store name), s)
  | .size => (.number s.ledger.size, s)

def createChain (s : Session) (name : String) (level : Level) (previous counter : Option String) :
    Option (ChainId × Store) :=
  match previous with
  | some p => (s.chains.get? p).map (s.store.shadow name level)
  | none => (counter.bind s.counters.get?).map (s.store.firstChain name level)

def withCandidates (s : Session) (a b : String) (f : Candidate → Candidate → Answer) : Answer :=
  match s.candidates.get? a, s.candidates.get? b with
  | some x, some y => f x y
  | _, _ => .failure .outOfRange

def chainStep (s : Session) (t : Nat) (step : ChainStep) : Answer × Session :=
  match step with
  | .counter slot none =>
    let (id, m) := s.store.newCounter
    (.nothing, { s.setStore m with counters := s.counters.set slot id })
  | .counter slot (some name) =>
    let (id, s) := s.usage t name
    (.nothing, { s with counters := s.counters.set slot id })
  | .counterValue slot =>
    match s.counters.get? slot with
    | none => (.failure .outOfRange, s)
    | some id => (.count (s.store.counter id), s)
  | .counterDrop slot => (.nothing, { s with counters := s.counters.erase slot })
  | .entry slot name declaring target body =>
    let e := Candidate.ofMethod ⟨.loose s.nextMethod, name, declaring, target, body⟩
    (.candidate (candidateView e),
      { s with candidates := s.candidates.set slot e, nextMethod := s.nextMethod + 1 })
  | .entryCopy slot source =>
    match s.candidates.get? source with
    | none => (.failure .outOfRange, s)
    | some e => (.nothing, { s with candidates := s.candidates.set slot e })
  | .create slot name level previous counter =>
    match s.createChain name level previous counter with
    | none => (.failure .outOfRange, s)
    | some (id, m) =>
      let s := { s.setStore m with chains := s.chains.set slot id }
      (s.chainAnswer (some id), s)
  | .add slot entry =>
    match s.chains.get? slot, s.candidates.get? entry with
    | some id, some e =>
      let (r, m) := s.store.add s.arena.catalog id e
      let s := s.setStore m
      (failed r fun _ => s.chainAnswer (some id), s)
    | _, _ => (.failure .outOfRange, s)
  | .get slot =>
    match s.chains.get? slot with
    | none => (.failure .outOfRange, s)
    | some id => (s.chainAnswer (some id), s)
  | .drop slot => (.nothing, { s with chains := s.chains.erase slot })
  | .order a b =>
    (s.withCandidates a b fun x y => failed (s.arena.catalog.moreSpecific x y) .flag, s)
  | .sameEntry a b => (s.withCandidates a b fun x y => .differ (x.same y), s)

end ScopedMethods.Session

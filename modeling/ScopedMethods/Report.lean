import ScopedMethods.Store

/-!
# Reported refusals

A call that can be refused is given a place for a code. It writes the code there
on each way on which it fails, over whatever the place held, and clears it as the
last thing that it does when it succeeds. A call without a place is made again
with a place of its own, and the code that is found there is raised. Refusals are
warned of in the log, first of the cause, then of the code.
-/

set_option autoImplicit false

namespace ScopedMethods

/-- A state that a call works on, and the code in the place that its caller gave. -/
structure Coded (σ : Type) where
  state : σ
  code : Option ErrorCode

namespace Coded

variable {σ : Type}

def update (f : σ → σ) (x : Coded σ) : Coded σ := { x with state := f x.state }

def write (c : ErrorCode) (x : Coded σ) : Coded σ := { x with code := some c }

def clear (x : Coded σ) : Coded σ := { x with code := none }

end Coded

structure Reported (α : Type) where
  value : α
  code : Option ErrorCode

namespace Reported

variable {α : Type}

def success (value : α) : Reported α := ⟨value, none⟩

def orRaise (r : Reported α) : Except Failure α :=
  match r.code with
  | none => .ok r.value
  | some c => .error (.code c)

end Reported

section Forms

variable {σ α : Type}

def reported (op : Coded σ → α × Coded σ) (x : σ) : Reported α × σ :=
  let (v, y) := op ⟨x, none⟩
  (⟨v, y.code⟩, y.state)

/-- The caller's place for a code: there may be none, and one that is there may hold a code. -/
abbrev CodePlace := Option (Option ErrorCode)

abbrev Delivery (α : Type) := Except Failure α × CodePlace

/-- A call in the form that its place for a code asks for. Without one the call is made
again with a new place, and what is left there is raised. -/
def inForm (op : Coded σ → α × Coded σ) (place : CodePlace) (x : σ) : Delivery α × σ :=
  match place with
  | some held =>
    let (v, y) := op ⟨x, held⟩
    ((.ok v, some y.code), y.state)
  | none =>
    let (r, y) := reported op x
    ((r.orRaise, none), y)

end Forms

def Journal.refuse (j : Journal) (t : Caller) (object : Nat) (r : Refusal) : Journal :=
  let explained := match Event.refusalText? object r with
    | none => j
    | some _ => j.note t (.refused object r)
  explained.note t (.codeEmitted (Event.refusalComponent r) r.code)

namespace Store

def refuse (s : Store) (t : Caller) (object : Nat) (r : Refusal) : Store :=
  { s with journal := s.journal.refuse t object r }

def check (t : Caller) (code : Option ErrorCode) (x : Coded Store) : Int × Coded Store :=
  match code with
  | none => (7, x.clear)
  | some c => (-1, (x.update (·.note t (.codeEmitted .errors c))).write c)

end Store

def checkCode (t : Caller) (code : Option ErrorCode) (s : Store) : Reported Int × Store :=
  reported (Store.check t code) s

structure Registry where
  tree : TypeTree
  store : Store

namespace Registry

def note (g : Registry) (t : Caller) (e : Event) : Registry := { g with store := g.store.note t e }

def refuse (t : Caller) (r : Refusal) (x : Coded Registry) : Coded Registry :=
  (x.update fun g => { g with store := g.store.refuse t 0 r }).write r.code

/-- Registers a type below a registered one, under a name that is not in use, and gives its
number, or none. -/
def register (t : Caller) (name : String) (parent : TypeId) (x : Coded Registry) :
    TypeId × Coded Registry :=
  let tree := x.state.tree
  if hp : tree.registered parent then
    if hn : tree.ids.contains name then (noType, refuse t (.nameTaken name) x)
    else
      let id : TypeId := ⟨tree.size⟩
      let parentName := (tree.info? parent).elim "" TypeInfo.name
      let x := x.update fun g => { g with tree := tree.enrol name parent hp hn }
      (id, (x.update (·.note t (.typeRegistered name id parentName))).clear)
  else (noType, refuse t (.parentUnknown name parent) x)

def declare (t : Caller) (on : TypeId) (d : MethodDecl) (x : Coded Registry) :
    Unit × Coded Registry :=
  let tree := x.state.tree
  if d.name.isEmpty then ((), refuse t .methodUnnamed x)
  else if !tree.registered on then ((), refuse t (.declaringUnknown d.name on) x)
  else
    match d.params.find? fun p => !tree.registered p with
    | some p => ((), refuse t (.parameterUnknown d.name p) x)
    | none =>
      let tree := tree.updateMethods on (tree.methodOf on d)
      let x := x.update fun g => { g with tree := tree }
      let x := match tree.info? on with
        | none => x
        | some i => x.update
            (·.note t (.methodDeclared i.name d.name d.eligible i.methods.length i.declared))
      ((), x.clear)

end Registry

def TypeTree.registerReporting (tree : TypeTree) (t : Caller) (name : String) (parent : TypeId)
    (s : Store) : Reported TypeId × TypeTree × Store :=
  let (r, g) := reported (Registry.register t name parent) ⟨tree, s⟩
  (r, g.tree, g.store)

def TypeTree.declareReporting (tree : TypeTree) (t : Caller) (on : TypeId) (d : MethodDecl)
    (s : Store) : Reported Unit × TypeTree × Store :=
  let (r, g) := reported (Registry.declare t on d) ⟨tree, s⟩
  (r, g.tree, g.store)

end ScopedMethods

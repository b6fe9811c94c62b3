import ScopedMethods.Decimal.Significant
import ScopedMethods.Realm

/-!
# Showcase

Types of numbers and texts, categories of methods that describe and shout them,
and workers that dispatch to those methods under nested scopes.
-/

set_option autoImplicit false

namespace ScopedMethods

structure Showcase where
  catalog : Catalog
  store : Store
  realm : Realm
  /-- The number of the next thread that works. -/
  nextThread : Nat

namespace Showcase

def number : TypeId := ⟨1⟩
def integer : TypeId := ⟨2⟩
def string : TypeId := ⟨3⟩
def verbose : TypeId := ⟨4⟩
def terse : TypeId := ⟨5⟩
def integerCategory : TypeId := ⟨6⟩

inductive Loading where
  | type (name : String) (parent : TypeId)
  | method (on : TypeId) (decl : MethodDecl)

def offered (name : String) (receiver : TypeId) (body : Body) : MethodDecl :=
  ⟨name, [receiver], true, true, some body⟩

def shouted (s : String) : String := s.map Char.toUpper ++ "!"

/-- The types and their methods, in order of loading. The last method is bound
to an instance and therefore never laid over anything. -/
def loadings : List Loading :=
  [.type "Number" TypeTree.root,
   .type "Integer" number,
   .type "String" TypeTree.root,
   .type "Verbose_category" TypeTree.root,
   .method verbose (offered "describe" number
     (Body.onNumber fun x => "the number " ++ Decimal.ofFloat x)),
   .method verbose (offered "describe" string
     (Body.onText fun s => "the string \"" ++ s ++ "\"")),
   .method verbose (offered "shout" string (Body.onText shouted)),
   .type "Terse_category" TypeTree.root,
   .method terse (offered "describe" number (Body.onNumber Decimal.ofFloat)),
   .type "Integer_category" verbose,
   .method integerCategory (offered "describe" integer
     (Body.onNumber fun x => "the integer " ++ Decimal.ofFloat x)),
   .method terse ⟨"shout", [string], true, false, none⟩]

def load (t : Caller) : List Loading → TypeTree → Store → TypeTree × Store
  | [], tree, s => (tree, s)
  | .type name parent :: rest, tree, s =>
    let (_, tree, s) := tree.registerReporting t name parent s
    load t rest tree s
  | .method on d :: rest, tree, s =>
    let (_, tree, s) := tree.declareReporting t on d s
    load t rest tree s

def remark (t : Caller) (severity : Log.Severity) (message : String) (s : Store) : Store :=
  s.note t (.remark (some .uncategorized) severity message)

def mainCaller : Caller := ⟨0, "overlay_demo_main"⟩

def workerName (index : UInt64) : String := s!"overlay_demo_worker_{index}"

def start (verbosity : Option Log.Verbosity) (options : Options) : Showcase :=
  let t := mainCaller
  let s := (Store.new verbosity).note ⟨0, ""⟩ (.treeCreated TypeTree.rootName)
  let s := s.note t (.threadNicknamed t.thread t.nickname)
  let (tree, s) := load t loadings TypeTree.new s
  let s := remark t .info s!"Loaded [{tree.size}] types." s
  let (r, s) := Realm.create 0 options t s
  ⟨⟨tree, []⟩, s, r, 1⟩

/-- The first candidate whose target is the type or an ancestor of it. -/
def applicable? (c : Catalog) (ty : TypeId) : List Candidate → Except Failure (Option Candidate)
  | [] => .ok none
  | e :: es =>
    if e.target = ty then .ok (some e)
    else
      match c.descends ty e.target with
      | .error f => .error f
      | .ok true => .ok (some e)
      | .ok false => applicable? c ty es

def textOf : Value → Except Failure String
  | .text s => .ok s
  | _ => .error .badCast

def callCandidate (c : Catalog) (t : Caller) (name : String) (ty : TypeId) (receiver : Value)
    (e : Candidate) (s : Store) : Except Failure String × Store :=
  let result := (e.method.invoke [receiver]).bind textOf
  if s.journal.admits .trace (some .uncategorized) then
    match c.typeName ty with
    | .error f => (.error f, s)
    | .ok shown => (result,
        remark t .trace s!"Dispatching [{name}] on [{shown}] to [{e.method.text}]." s)
  else (result, s)

def dispatch (c : Catalog) (t : Caller) (name : String) (ty : TypeId) (receiver : Value)
    (r : Realm) (s : Store) : Except Failure String × Realm × Store :=
  match r.activeHere t s with
  | (false, r, s) => (.ok s!"<{name}: no overlay scope>", r, s)
  | (true, r, s) =>
    match r.lookup t name s with
    | (none, r, s) => (.ok s!"<{name}: not overlaid>", r, s)
    | (some id, r, s) =>
      let entries := (s.chain id).entries
      match applicable? c ty entries with
      | .error f => (.error f, r, s)
      | .ok none => (.ok s!"<{name}: no applicable method among [{entries.length}]>", r, s)
      | .ok (some e) =>
        let (result, s) := callCandidate c t name ty receiver e s
        (result, r, s)

def describeAndShout (c : Catalog) (t : Caller) (ty : TypeId) (x : Float) (text : String)
    (r : Realm) (s : Store) : Except Failure String × Realm × Store :=
  match dispatch c t "shout" string (.text text) r s with
  | (.error f, r, s) => (.error f, r, s)
  | (.ok shout, r, s) =>
    match dispatch c t "describe" ty (.number x) r s with
    | (.error f, r, s) => (.error f, r, s)
    | (.ok description, r, s) => (.ok (description ++ " / " ++ shout), r, s)

def outerBody (c : Catalog) (t : Caller) (x : Float) (text : String) (r : Realm) (s : Store) :
    Except Failure String × Realm × Store :=
  match r.within c t [integerCategory] (describeAndShout c t integer x text) s with
  | (.error f, r, s) => (.error f, r, s)
  | (.ok inner, r, s) =>
    describeAndShout c t number x text r (remark t .info s!"Level [2] gave [{inner}]." s)

def iteration (c : Catalog) (t : Caller) (index i : UInt64) (r : Realm) (s : Store) :
    Except Failure Unit × Realm × Store :=
  let outer := if index % 2 = 0 then verbose else terse
  let body := outerBody c t (index * 10 + i).toFloat s!"hello from {index}"
  match r.within c t [outer] body s with
  | (.error f, r, s) => (.error f, r, s)
  | (.ok result, r, s) => (.ok (), r, remark t .info s!"Level [1] gave [{result}]." s)

def iterate (c : Catalog) (t : Caller) (index : UInt64) :
    Nat → UInt64 → Realm → Store → Except Failure Unit × Realm × Store
  | 0, _, r, s => (.ok (), r, s)
  | n + 1, i, r, s =>
    match iteration c t index i r s with
    | (.error f, r, s) => (.error f, r, s)
    | (.ok (), r, s) => iterate c t index n (i + 1) r s

def work (c : Catalog) (t : Caller) (index : UInt64) (iterations : Nat) (r : Realm) (s : Store) :
    Except Failure Unit × Realm × Store :=
  match iterate c t index iterations 0 r s with
  | (.error f, r, s) => (.error f, r, s)
  | (.ok (), r, s) =>
    match dispatch c t "describe" number (.number 1) r s with
    | (.error f, r, s) => (.error f, r, s)
    | (.ok result, r, s) => (.ok (), r, remark t .info s!"Outside: [{result}]." s)

/-- Runs a worker in a thread of its own, which ends with it. -/
def runWorker (x : Showcase) (index : UInt64) (iterations : Nat) :
    Except Failure Unit × Showcase :=
  let t : Caller := ⟨x.nextThread, workerName index⟩
  let s := x.store.note t (.threadNicknamed t.thread t.nickname)
  let (result, r, s) := work x.catalog t index iterations x.realm s
  let (r, s) := r.threadExit t s
  (result, { x with realm := r, store := s, nextThread := x.nextThread + 1 })

def runDispatch (x : Showcase) (types : List TypeId) (name : String) (ty : TypeId)
    (receiver : Value) : Except Failure String × Showcase :=
  let body := dispatch x.catalog mainCaller name ty receiver
  let (result, r, s) :=
    if types.isEmpty then body x.realm x.store
    else x.realm.within x.catalog mainCaller types body x.store
  (result, { x with realm := r, store := s })

/-- The showcase's own lines: severity, nickname and message. -/
def lines (x : Showcase) : List (List UInt8) :=
  (x.store.journal.entries.filter fun e => e.event.component = some .uncategorized).map fun e =>
    s!"{e.event.severity.text} {e.caller.nickname}: ".toUTF8.toList ++ e.event.message

def fresh (x : Showcase) : Showcase :=
  { x with store := { x.store with journal := { x.store.journal with entries := [] } } }

def active (x : Showcase) : UInt64 := x.realm.ledger.active

end Showcase

end ScopedMethods

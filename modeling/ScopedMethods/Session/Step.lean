import ScopedMethods.Arena
import ScopedMethods.Tenancy

/-!
# Steps of a session

What can be asked of a session: of its types, realms and threads, and of
objects held by themselves in named slots.
-/

set_option autoImplicit false

namespace ScopedMethods.Session

inductive Datum where
  | nothing
  | flag (b : Bool)
  | int (n : Int)
  | text (s : String)

/-- The form of a call that can be refused. -/
inductive Form where
  | reporting
  | raising
deriving DecidableEq, Repr

inductive TypeStep where
  | register (name : String) (parent : TypeId) (form : Form)
  | declare (on : TypeId) (decl : MethodDecl) (form : Form)
  | find (name : String)
  | count
  | parent (type : TypeId)
  | name (type : TypeId)
  | descends (child ancestor : TypeId)
  | ancestry (type : TypeId)
  | eligible (type : TypeId)
  | invoke (type : TypeId) (index : Nat) (args : List String)
  | fault (query : Query) (type : TypeId) (on : Bool)

inductive RealmStep where
  | create (options : Options)
  | destroy
  | options
  | enter (types : List TypeId)
  | lookup (name : String)
  | keep (slot name : String)
  | call (name : String) (index : Nat) (args : List String)
  | here
  | anywhere
  | level
  | usage (name : String)
  | nameUsage (name : String)
  | reclaim
  | tally
  | view

inductive ThreadStep where
  | leave (result : Datum)
  | raise (message : String) (levels : Nat)
  | exit
  | nickname (name : String) (system : Bool)

inductive KeptStep where
  | get (slot : String)
  | drop (slot : String)
  | same (a b : String)

inductive StackStep where
  | create (maxDepth : Level)
  | enter (form : Form)
  | lay (type : TypeId)
  | leave
  | chain (name : String) (keep : Option String)
  | destroy

inductive LedgerStep where
  | add (name : String) (n : Int32)
  | count (name : String)
  | size

inductive ChainStep where
  | counter (slot : String) (name : Option String)
  | counterValue (slot : String)
  | counterDrop (slot : String)
  | entry (slot name : String) (declaring target : TypeId) (body : Option Body)
  | entryCopy (slot source : String)
  | create (slot name : String) (level : Level) (previous counter : Option String)
  | add (slot entry : String)
  | get (slot : String)
  | drop (slot : String)
  | order (a b : String)
  | sameEntry (a b : String)

inductive TenancyStep where
  | create (nickname : String) (plan : TenancyPlan) (failures : Nat)
  | obtain
  | peek
  | release
  | reclaim
  | count
  | change (busy : Option Bool) (stuff : Option String)
  | list
  | name
  | destroy

inductive Request where
  | types (s : TypeStep)
  | realm (key : Nat) (s : RealmStep)
  | thread (s : ThreadStep)
  | kept (s : KeptStep)
  | stack (slot : String) (s : StackStep)
  | ledger (s : LedgerStep)
  | chain (s : ChainStep)
  | tenancy (slot : String) (s : TenancyStep)

structure Step where
  thread : Nat
  request : Request

end ScopedMethods.Session

import ScopedMethods.Realm

/-!
# The arena

A catalog, realms over it, and threads that enter and leave scopes, one act at
a time. Each thread remembers the scopes that it is inside of, the innermost
first, with the stack that each was entered on.
-/

set_option autoImplicit false

namespace ScopedMethods

structure Frame where
  realm : Nat
  stack : Nat
deriving DecidableEq, Repr

structure ThreadState where
  nickname : String
  frames : List Frame
deriving DecidableEq, Repr

structure Arena where
  catalog : Catalog
  store : Store
  realms : Slots Nat Realm
  threads : Slots Nat ThreadState

/-- What a thread can do. A realm that is named but not there is made first. -/
inductive Act where
  | register (name : String) (parent : TypeId)
  | declare (on : TypeId) (decl : MethodDecl)
  | setFault (query : Query) (type : TypeId) (on : Bool)
  | createRealm (realm : Nat) (options : Options)
  | destroyRealm (realm : Nat)
  | enter (realm : Nat) (types : List TypeId)
  | leave
  | raise (levels : Nat)
  | lookup (realm : Nat) (name : String)
  | activeHere (realm : Nat)
  | currentLevel (realm : Nat)
  | nameUsage (realm : Nat) (name : String)
  | requestReclaim (realm : Nat)
  | exit
  | setNickname (name : String) (system : Bool)

inductive Ending where
  | done
  | registered (r : Reported TypeId)
  | declared (r : Reported Unit)
  | entered
  | refused (f : Failure)
  | left (realm : Nat)
  | unwound (scopes realm : Nat)
  | noScope
  | chain (id : Option ChainId)
  | flag (b : Bool)
  | level (n : Level)
  | counter (id : CounterId)
  | number (n : Nat)

namespace Arena

def new (verbosity : Option Log.Verbosity) : Arena where
  catalog := Catalog.new
  store := (Store.new verbosity).note ⟨0, ""⟩ (.treeCreated TypeTree.rootName)
  realms := []
  threads := []

def thread (a : Arena) (t : Nat) : ThreadState := (a.threads.get? t).getD ⟨"", []⟩

def caller (a : Arena) (t : Nat) : Caller := ⟨t, (a.thread t).nickname⟩

def setThread (a : Arena) (t : Nat) (x : ThreadState) : Arena :=
  { a with threads := a.threads.set t x }

def withThread (a : Arena) (t : Nat) : Arena :=
  if a.threads.contains t then a else a.setThread t ⟨"", []⟩

def realm? (a : Arena) (key : Nat) : Option Realm := a.realms.get? key

def setRealm (a : Arena) (key : Nat) (r : Realm) (s : Store) : Arena :=
  { a with realms := a.realms.set key r, store := s }

def destroyRealm (a : Arena) (t : Nat) (key : Nat) : Arena :=
  match a.realm? key with
  | none => a
  | some r =>
    let (_, s) := r.destroy (a.caller t) a.store
    { a with realms := a.realms.erase key, store := s }

/-- A new realm takes the place of an older one under its key, which is
destroyed once the new one is there. -/
def createRealm (a : Arena) (t : Nat) (key : Nat) (o : Options) : Arena :=
  let (r, s) := Realm.create key o (a.caller t) a.store
  let a := { a with store := s }.destroyRealm t key
  a.setRealm key r a.store

def obtainRealm (a : Arena) (t : Nat) (key : Nat) : Realm × Arena :=
  match a.realm? key with
  | some r => (r, a)
  | none =>
    let (r, s) := Realm.create key {} (a.caller t) a.store
    (r, a.setRealm key r s)

def inRealm {α : Type} (a : Arena) (t : Nat) (key : Nat)
    (f : Realm → Store → α × Realm × Store) : α × Arena :=
  let (r, a) := a.obtainRealm t key
  let (x, r, s) := f r a.store
  (x, a.setRealm key r s)

def leaveFrame (t : Nat) (f : Frame) (a : Arena) : Arena :=
  match a.realm? f.realm with
  | none => a
  | some r =>
    let (r, s) := r.leave (a.caller t) f.stack a.store
    a.setRealm f.realm r s

def leaveFrames (t : Nat) (fs : List Frame) (a : Arena) : Arena :=
  fs.foldl (fun a f => a.leaveFrame t f) a

def setFrames (a : Arena) (t : Nat) (fs : List Frame) : Arena :=
  a.setThread t { a.thread t with frames := fs }

def enter (a : Arena) (t : Nat) (key : Nat) (types : List TypeId) : Ending × Arena :=
  let (result, a) := a.inRealm t key
    (fun r s => r.enter a.catalog (a.caller t) types s)
  match result with
  | .error f => (.refused f, a)
  | .ok stack => (.entered, a.setFrames t (⟨key, stack⟩ :: (a.thread t).frames))

/-- An exception that passes through some scopes, at least one if there is any. -/
def raise (a : Arena) (t : Nat) (levels : Nat) : Ending × Arena :=
  let frames := (a.thread t).frames
  let passed := frames.take (max levels 1)
  match passed.getLast? with
  | none => (.noScope, a)
  | some outermost =>
    (.unwound passed.length outermost.realm,
      (a.leaveFrames t passed).setFrames t (frames.drop passed.length))

def exitRealm (t : Nat) (a : Arena) (key : Nat) : Arena :=
  match a.realm? key with
  | none => a
  | some r =>
    let (r, s) := r.threadExit (a.caller t) a.store
    a.setRealm key r s

def exit (a : Arena) (t : Nat) : Arena :=
  let a := a.leaveFrames t (a.thread t).frames
  let a := a.realms.keys.foldl (exitRealm t) a
  { a with threads := a.threads.erase t }

def systemNameSize : Nat := 15

def systemName (t : Caller) : List UInt8 :=
  Text.cutBytes systemNameSize (if t.nickname.isEmpty then toString t.thread else t.nickname)

def setNickname (a : Arena) (t : Nat) (name : String) (system : Bool) : Arena :=
  let a := a.setThread t { a.thread t with nickname := name }
  let c := a.caller t
  let s := a.store.note c (.threadNicknamed t name)
  { a with store := if system then s.note c (.threadRenamed (systemName c)) else s }

def perform (a : Arena) (t : Nat) : Act → Ending × Arena
  | .register name parent =>
    let (r, tree, s) := a.catalog.tree.registerReporting (a.caller t) name parent a.store
    (.registered r, { a with catalog := { a.catalog with tree := tree }, store := s })
  | .declare on d =>
    let (r, tree, s) := a.catalog.tree.declareReporting (a.caller t) on d a.store
    (.declared r, { a with catalog := { a.catalog with tree := tree }, store := s })
  | .setFault q ty on => (.done, { a with catalog := a.catalog.setFault q ty on })
  | .createRealm key o => (.done, a.createRealm t key o)
  | .destroyRealm key => (.done, a.destroyRealm t key)
  | .enter key types => a.enter t key types
  | .leave =>
    match (a.thread t).frames with
    | [] => (.noScope, a)
    | f :: fs => (.left f.realm, (a.leaveFrame t f).setFrames t fs)
  | .raise levels => a.raise t levels
  | .lookup key name =>
    let (id, a) := a.inRealm t key (fun r s => r.lookup (a.caller t) name s)
    (.chain id, a)
  | .activeHere key =>
    let (b, a) := a.inRealm t key (fun r s => r.activeHere (a.caller t) s)
    (.flag b, a)
  | .currentLevel key =>
    let (n, a) := a.inRealm t key (fun r s => r.currentLevel (a.caller t) s)
    (.level n, a)
  | .nameUsage key name =>
    let (c, a) := a.inRealm t key (fun r s => r.nameUsage (a.caller t) name s)
    (.counter c, a)
  | .requestReclaim key =>
    let (n, a) := a.inRealm t key (fun r s => r.requestReclaim (a.caller t) s)
    (.number n, a)
  | .exit => (.flag true, a.exit t)
  | .setNickname name system => (.done, a.setNickname t name system)

/-- One act of a thread, which comes into being if need be; but nothing can
end that is not there. -/
def step (a : Arena) (t : Nat) (act : Act) : Ending × Arena :=
  match act with
  | .exit => if a.threads.contains t then a.perform t .exit else (.flag false, a)
  | act => (a.withThread t).perform t act

def run (a : Arena) (acts : List (Nat × Act)) : Arena :=
  acts.foldl (fun a p => (a.step p.1 p.2).2) a

end Arena

end ScopedMethods

/-!
# Options

What can be chosen for the scopes of a realm, and the options as a
configuration reader declares, reads and prints them.
-/

set_option autoImplicit false

namespace ScopedMethods

structure Options where
  /-- The greatest depth of nested scopes on one thread; 0 for no limit. -/
  maxDepth : UInt32 := 0
  /-- Whether a thread gives up its scope stack when it leaves its outermost scope. -/
  releaseIdle : Bool := true
deriving DecidableEq, Repr

inductive OptionValue where
  | number (n : UInt32)
  | flag (b : Bool)
deriving DecidableEq, Repr

def OptionValue.text : OptionValue → String
  | number n => toString n
  | flag b => if b then "1" else "0"

structure OptionDecl where
  name : String
  initial : OptionValue
  description : String

namespace Options

def maxDepthName : String := "max-nesting-depth"

def releaseIdleName : String := "release-idle-stacks"

/-- The options with their present values as defaults. -/
def declarations (o : Options) : List OptionDecl :=
  [⟨maxDepthName, .number o.maxDepth,
      "The maximum nesting depth of overlay scopes on one thread.  Entering a scope that would " ++
      "go deeper fails (before any overlay is registered or the unit of work runs).  " ++
      "0 means no limit."⟩,
   ⟨releaseIdleName, .flag o.releaseIdle,
      "If true, a thread's scope stack is freed as soon as its outermost overlay scope exits, " ++
      "and recreated on the next scope entry.  If false, it stays until the thread exits or a " ++
      "reclaim request finds it idle; this saves an allocation per outermost scope on threads " ++
      "that enter scopes often."⟩]

def setNamed (o : Options) (name : String) (v : OptionValue) : Options :=
  match v with
  | .number n => if name = maxDepthName then { o with maxDepth := n } else o
  | .flag b => if name = releaseIdleName then { o with releaseIdle := b } else o

/-- Every declared option takes the value given under its name, or its default. -/
def parse (declared : List OptionDecl) (given : List (String × OptionValue)) (o : Options) :
    Options :=
  declared.foldl (fun o d => o.setNamed d.name ((given.lookup d.name).getD d.initial)) o

def caption : String := "Per-scope::Runtime option values"

def printed (o : Options) : List OptionDecl :=
  o.declarations.map fun d => { d with description := "" }

def text (o : Options) : String :=
  o.printed.foldl (fun s d => s ++ s!"  --{d.name} (={d.initial.text})\n") (caption ++ ":\n")

end Options

end ScopedMethods

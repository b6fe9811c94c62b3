import ScopedMethods.Showcase

/-!
# The showcase as a program

Arguments, the run of all workers, one after another, and the lines to print.
-/

set_option autoImplicit false

namespace ScopedMethods.Showcase

structure Arguments where
  help : Bool := false
  threads : Nat := 4
  iterations : Nat := 3
  severity : Log.Severity := .info
  options : Options := {}

namespace Arguments

def number (name value : String) : Except String Nat :=
  match value.toNat? with
  | some n => .ok n
  | none => .error s!"the argument ('{value}') for option '--{name}' is invalid"

def flag (name value : String) : Except String Bool :=
  if ["1", "true", "yes", "on"].contains value then .ok true
  else if ["0", "false", "no", "off"].contains value then .ok false
  else .error s!"the argument ('{value}') for option '--{name}' is invalid"

def set (a : Arguments) (name value : String) : Except String Arguments :=
  if name = "threads" then (number name value).map fun n => { a with threads := n }
  else if name = "iterations" then (number name value).map fun n => { a with iterations := n }
  else if name = "log-sev" then
    .ok { a with severity := (Log.Severity.read value.toUTF8.toList).1 }
  else if name = Options.maxDepthName then
    (number name value).map fun n =>
      { a with options := a.options.setNamed name (.number (UInt32.ofNat n)) }
  else if name = Options.releaseIdleName then
    (flag name value).map fun b => { a with options := a.options.setNamed name (.flag b) }
  else .error s!"unrecognised option '--{name}'"

/-- Each option but the one for help is followed by its value. -/
def parse : List String → Arguments → Except String Arguments
  | [], a => .ok a
  | word :: rest, a =>
    match word.toList with
    | '-' :: '-' :: name =>
      let name := String.ofList name
      if name = "help" then parse rest { a with help := true }
      else
        match rest with
        | [] => .error s!"the required argument for option '--{name}' is missing"
        | value :: rest =>
          match a.set name value with
          | .error e => .error e
          | .ok a => parse rest a
    | _ => .error s!"too many positional options have been specified: {word}"

def helpText : String :=
  let own := [("help", "Print this help and exit."), ("threads", "Number of worker threads."),
    ("iterations", "Scopes entered per worker thread."),
    ("log-sev", "Most verbose log severity shown: NONE, FATAL, ERROR, WARNING, INFO, DEBUG, " ++
      "TRACE, DATA.")]
  let chosen := (Options.declarations {}).map fun d => (d.name, d.description)
  (own ++ chosen).foldl (fun s p => s ++ s!"  --{p.1}  {p.2}\n") "Overlay demo options:\n"

end Arguments

def namesBefore : String := "demo-"

def verbosity (s : Log.Severity) : Log.Verbosity :=
  (Log.Verbosity.new s).nameComponents Log.Component.table namesBefore

def runWorkers (iterations : Nat) : List Nat → Showcase → Except Failure Unit × Showcase
  | [], x => (.ok (), x)
  | i :: is, x =>
    match x.runWorker (UInt64.ofNat i) iterations with
    | (.error f, x) => (.error f, x)
    | (.ok (), x) => runWorkers iterations is x

def report (severity : Log.Severity) (message : String) (x : Showcase) : Showcase :=
  { x with store := remark mainCaller severity message x.store }

def summary (x : Showcase) : String :=
  let name := "describe"
  s!"All workers done.  Active scopes [{x.active}]; live scope stacks [{x.realm.liveStacks}]; " ++
    s!"usage of [{name}] [{x.realm.usageCount x.store name}]."

def runAll (a : Arguments) : Bool × Showcase :=
  let x := start (some (verbosity a.severity)) a.options
  match runWorkers a.iterations (List.range a.threads) x with
  | (.error f, x) => (false, x.report .warning s!"Caught exception: [{f.message}].")
  | (.ok (), x) =>
    let x := x.report .info x.summary
    if x.realm.activeAnywhere then
      (false, x.report .warning "Scopes still active after all workers exited.")
    else (true, x)

def printedLine (e : LogEntry) : List UInt8 × Bool :=
  let v := verbosity .info
  let position := s!"[{e.event.severity.text}] [{e.caller.nickname}] " ++
    s!"[{v.componentText e.event.component}]: "
  (position.toUTF8.toList ++ e.event.message, e.event.severity ≤ Log.Severity.warning)

def printedLines (x : Showcase) : List (List UInt8 × Bool) :=
  x.store.journal.entries.map printedLine

end ScopedMethods.Showcase

import ScopedMethods.Log.Event

/-!
# The journal

The lines that a logger has taken. Without a logger, nothing is logged; with
one, what its verbosity admits.
-/

set_option autoImplicit false

namespace ScopedMethods

structure LogEntry where
  caller : Caller
  event : Event

structure Journal where
  /-- The verbosity of the logger, if there is one. -/
  verbosity : Option Log.Verbosity
  entries : List LogEntry

/-- The line as a capturing logger shows it: severity, component and message. -/
def LogEntry.line (e : LogEntry) : List UInt8 :=
  let component := match e.event.component with
    | none => ""
    | some c => c.name?.getD (toString c.value)
  s!"{e.event.severity.text} {component}: ".toUTF8.toList ++ e.event.message

namespace Journal

def new (verbosity : Option Log.Verbosity) : Journal := ⟨verbosity, []⟩

def admits (j : Journal) (s : Log.Severity) (c : Option Log.Component) : Bool :=
  match j.verbosity with
  | none => false
  | some v => v.admits s c

def take (j : Journal) (t : Caller) (e : Event) : Journal :=
  match j.verbosity with
  | none => j
  | some _ => { j with entries := j.entries ++ [⟨t, e⟩] }

def note (j : Journal) (t : Caller) (e : Event) : Journal :=
  if j.admits e.severity e.component then j.take t e else j

/-- Numbered statements, one for each severity in turn. The number of a
statement is counted up only when the statement is built. -/
def numbered (j : Journal) (t : Caller) (c : Option Log.Component) :
    List Log.Severity → Nat → Journal × Nat
  | [], n => (j, n)
  | s :: ss, n =>
    if j.admits s c then (j.take t (.remark c s s!"m{n + 1}")).numbered t c ss (n + 1)
    else j.numbered t c ss n

def numberedUnchecked (j : Journal) (t : Caller) (c : Option Log.Component) (s : Log.Severity)
    (n : Nat) : Journal × Nat :=
  match j.verbosity with
  | none => (j, n)
  | some _ => (j.take t (.remark c s s!"m{n + 1}"), n + 1)

end Journal

end ScopedMethods

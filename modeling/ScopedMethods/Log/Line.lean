import ScopedMethods.Calendar
import ScopedMethods.Text.Fragment
import ScopedMethods.Log.Verbosity

/-!
# Log lines

A statement as one line of text, and the stream it goes to.
-/

set_option autoImplicit false

namespace ScopedMethods.Log

structure Statement where
  severity : Severity
  component : Option Component
  file : String
  function : String
  line : UInt32
  /-- Nanoseconds from the epoch. -/
  time : Int
  nickname : String
  message : String

/-- The line of a statement, components printing as the verbosity names them. -/
def Statement.lineText (v : Verbosity) (m : Statement) : String :=
  s!"[{Calendar.stamp m.time}] [{m.severity.text}] [{m.nickname}] " ++
    s!"[{v.componentText m.component}]: " ++
    s!"{Text.position m.file m.function m.line}: {m.message}\n"

def Statement.toErrors (m : Statement) : Bool := decide (m.severity ≤ Severity.warning)

/-- What a statement leaves on the plain stream and on the error stream. -/
def Statement.written (v : Verbosity) (m : Statement) : String × String :=
  if m.toErrors then ("", m.lineText v) else (m.lineText v, "")

end ScopedMethods.Log

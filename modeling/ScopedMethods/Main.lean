import ScopedMethods.Showcase.Program

/-!
# Command line of the showcase
-/

set_option autoImplicit false

open ScopedMethods

def writeLine (line : List UInt8 × Bool) : IO Unit := do
  let stream ← if line.2 then IO.getStderr else IO.getStdout
  stream.write ⟨(line.1 ++ [10]).toArray⟩

def main (args : List String) : IO UInt32 := do
  match Showcase.Arguments.parse args {} with
  | .error e =>
    IO.eprintln s!"Bad command line: [{e}].  Try --help."
    return 1
  | .ok a =>
    if a.help then
      IO.print Showcase.Arguments.helpText
      return 0
    let (fine, x) := Showcase.runAll a
    x.printedLines.forM writeLine
    return if fine then 0 else 1

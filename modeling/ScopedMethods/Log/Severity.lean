import ScopedMethods.Text.Word

/-!
# Severities

Severities are ordered by number, the gravest first. Any 64-bit number is a
severity; eight of them have names.
-/

set_option autoImplicit false

namespace ScopedMethods.Log

structure Severity where
  number : UInt64
deriving DecidableEq, Repr

namespace Severity

def none : Severity := ⟨0⟩
def fatal : Severity := ⟨1⟩
def error : Severity := ⟨2⟩
def warning : Severity := ⟨3⟩
def info : Severity := ⟨4⟩
def debug : Severity := ⟨5⟩
def trace : Severity := ⟨6⟩
def data : Severity := ⟨7⟩

def all : List Severity := [fatal, error, warning, info, debug, trace, data]

def names : Text.Naming :=
  ["NONE", "FATAL", "ERROR", "WARNING", "INFO", "DEBUG", "TRACE", "DATA"]

instance : LE Severity := ⟨fun a b => a.number ≤ b.number⟩

instance (a b : Severity) : Decidable (a ≤ b) :=
  inferInstanceAs (Decidable (a.number ≤ b.number))

def text (s : Severity) : String :=
  match names[s.number.toNat]? with
  | some name => name
  | Option.none => s!"<bad Sev [{s.number}]>"

/-- Severities are held in 64 bits. -/
def conversion : Text.Conversion := .unsigned UInt64.size

def read (input : List UInt8) : Severity × List UInt8 :=
  let (v, rest) := names.readAs conversion 0 true input
  (⟨UInt64.ofNat v⟩, rest)

def readMany (count : Nat) (input : List UInt8) : List Severity × List UInt8 :=
  let (vs, rest) := names.readManyAs conversion 0 true count input
  (vs.map fun v => ⟨UInt64.ofNat v⟩, rest)

end Severity

end ScopedMethods.Log

import ScopedMethods.Text.Fragment

/-!
# Failures

The error codes of this library, and the ways in which a call can fail.
-/

set_option autoImplicit false

namespace ScopedMethods

inductive ErrorCode where
  | typeNotRegistered
  | typeAlreadyRegistered
  | methodNameEmpty
  | nestingTooDeep
deriving DecidableEq, Repr

namespace ErrorCode

def number : ErrorCode → Nat
  | typeNotRegistered => 1
  | typeAlreadyRegistered => 2
  | methodNameEmpty => 3
  | nestingTooDeep => 4

def ofNumber? : Nat → Option ErrorCode
  | 1 => some typeNotRegistered
  | 2 => some typeAlreadyRegistered
  | 3 => some methodNameEmpty
  | 4 => some nestingTooDeep
  | _ => none

def message : ErrorCode → String
  | typeNotRegistered => "Type is not registered in the type table."
  | typeAlreadyRegistered => "A type with this name is already registered in the type table."
  | methodNameEmpty => "Method name must not be empty."
  | nestingTooDeep =>
    "Entering this overlay scope would exceed the configured maximum nesting depth."

def category : String := "overlay"

def text (c : ErrorCode) : String := s!"{category}:{c.number}"

end ErrorCode

inductive Failure where
  | code (c : ErrorCode)
  | raised (what : String)
  | outOfRange
  | badCast
  | emptyCall
deriving DecidableEq, Repr

namespace Failure

def message : Failure → String
  | code c => c.message
  | raised what => what
  | _ => ""

end Failure

/-- An error of this library: a code or none, and where it arose. -/
structure LibraryError where
  code : Option ErrorCode
  context : String

def LibraryError.plainText? (e : LibraryError) : Option String :=
  match e.code with
  | some _ => none
  | none => some (Text.untilNul e.context)

/-- A result with the state it leaves, also when it fails. -/
abbrev Outcome (σ α : Type) := Except Failure α × σ

end ScopedMethods

import ScopedMethods.Session.Parts
import ScopedMethods.Session.Scopes
import ScopedMethods.Session.Tenancies
import ScopedMethods.Session.Types

/-!
# Runs of a session

One step at a time, each step with its answer, the states that it destroyed
and the lines that it logged.
-/

set_option autoImplicit false

namespace ScopedMethods.Session

/-- Brings the asking thread into being; but nothing can end that is not there. -/
def withThread (s : Session) (t : Nat) : Session :=
  { s with arena := s.arena.withThread t }

def answer (s : Session) (step : Step) : Answer × Session :=
  let t := step.thread
  match step.request with
  | .types q => (s.withThread t).typeStep t q
  | .realm key q => (s.withThread t).realmStep t key q
  | .thread .exit =>
    let (a, s) := s.threadStep t .exit
    (a, s.exitTenancies t)
  | .thread q => (s.withThread t).threadStep t q
  | .kept q => (s.withThread t).keptStep q
  | .stack slot q => (s.withThread t).stackStep t slot q
  | .ledger q => (s.withThread t).ledgerStep t q
  | .chain q => (s.withThread t).chainStep t q
  | .tenancy slot q => (s.withThread t).tenancyStep t slot q

def lines (s : Session) : List (List UInt8) := s.store.journal.entries.map LogEntry.line

def fresh (s : Session) : Session :=
  let m := s.store
  { s.setStore { m with journal := { m.journal with entries := [] } } with departed := [] }

def step (s : Session) (q : Step) : Reply × Session :=
  let (a, s) := s.fresh.answer q
  (⟨a, s.departed.mergeSort, s.lines⟩, s)

def run (s : Session) : List Step → List Reply × Session
  | [] => ([], s)
  | q :: qs =>
    let (r, s) := s.step q
    let (rs, s) := s.run qs
    (r :: rs, s)

end ScopedMethods.Session

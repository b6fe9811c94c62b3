import ScopedMethods.Log.Journal

/-!
# The store

Chains and usage counters by identity, shared by all threads and outliving the
stacks that made them, and the journal.
-/

set_option autoImplicit false

namespace ScopedMethods

structure Store where
  chains : Array Chain
  counters : Array Int32
  journal : Journal

namespace Store

def new (verbosity : Option Log.Verbosity) : Store := ⟨#[], #[], Journal.new verbosity⟩

def note (s : Store) (t : Caller) (e : Event) : Store :=
  { s with journal := s.journal.note t e }

def chain (s : Store) (id : ChainId) : Chain := s.chains[id.number]?.getD Chain.blank

def counter (s : Store) (id : CounterId) : Int32 := s.counters[id.number]?.getD 0

/-- The usage counter of a chain, which it shares with the chains it shadows. -/
def usage (s : Store) (id : ChainId) : Int32 := s.counter (s.chain id).counter

def newCounter (s : Store) : CounterId × Store :=
  (⟨s.counters.size⟩, { s with counters := s.counters.push 0 })

def count (s : Store) (id : CounterId) (n : Int32) : Store :=
  { s with counters := s.counters.modify id.number (· + n) }

def newChain (s : Store) (c : Chain) : ChainId × Store :=
  (⟨s.chains.size⟩, { s with chains := s.chains.push c })

def firstChain (s : Store) (name : String) (level : Level) (counter : CounterId) :
    ChainId × Store :=
  s.newChain ⟨name, level, [], counter, []⟩

def shadow (s : Store) (name : String) (level : Level) (previous : ChainId) : ChainId × Store :=
  let p := s.chain previous
  s.newChain ⟨name, level, p.entries, p.counter, previous :: p.shadows⟩

def setEntries (s : Store) (id : ChainId) (es : List Candidate) : Store :=
  { s with chains := s.chains.modify id.number fun c => { c with entries := es } }

/-- Adds a candidate to a chain and counts it. Nothing changes if a comparison fails. -/
def add (c : Catalog) (id : ChainId) (new : Candidate) (s : Store) : Outcome Store Unit :=
  match c.place new (s.chain id).entries with
  | .error f => (.error f, s)
  | .ok es => (.ok (), (s.setEntries id es).count (s.chain id).counter 1)

theorem chain_note (s : Store) (t : Caller) (e : Event) (id : ChainId) :
    (s.note t e).chain id = s.chain id := rfl

theorem chain_count (s : Store) (c : CounterId) (n : Int32) (id : ChainId) :
    (s.count c n).chain id = s.chain id := rfl

theorem counter_setEntries (s : Store) (id : ChainId) (es : List Candidate) (c : CounterId) :
    (s.setEntries id es).counter c = s.counter c := rfl

theorem chain_newChain_self (s : Store) (c : Chain) :
    (s.newChain c).2.chain (s.newChain c).1 = c := by
  simp [newChain, chain]

theorem chain_newChain_of_lt {s : Store} {id : ChainId} (h : id.number < s.chains.size)
    (c : Chain) : (s.newChain c).2.chain id = s.chain id := by
  simp [newChain, chain, Array.getElem?_push_lt, h]

theorem chain_setEntries_ne {s : Store} {id j : ChainId} (h : id ≠ j) (es : List Candidate) :
    (s.setEntries id es).chain j = s.chain j := by
  have hn : id.number ≠ j.number := fun e => h (by cases id; cases j; simp_all)
  simp [setEntries, chain, Array.getElem?_modify, hn]

theorem chain_setEntries_self {s : Store} {id : ChainId} (h : id.number < s.chains.size)
    (es : List Candidate) :
    (s.setEntries id es).chain id = { s.chain id with entries := es } := by
  simp [setEntries, chain, Array.getElem_modify, h]

theorem counter_count_self {s : Store} {c : CounterId} (h : c.number < s.counters.size)
    (n : Int32) : (s.count c n).counter c = s.counter c + n := by
  simp [count, counter, Array.getElem_modify, h]

theorem counter_count_ne {s : Store} {c d : CounterId} (h : c ≠ d) (n : Int32) :
    (s.count c n).counter d = s.counter d := by
  have hn : c.number ≠ d.number := fun e => h (by cases c; cases d; simp_all)
  simp [count, counter, Array.getElem?_modify, hn]

theorem counter_newCounter (s : Store) (d : CounterId) :
    (s.newCounter).2.counter d = s.counter d := by
  simp only [newCounter, counter, Array.getElem?_push]
  split
  · rename_i hd
    simp [hd]
  · rfl

end Store

end ScopedMethods

import ScopedMethods.Log.Verbosity

/-!
# A shelf of verbosities

Verbosities in named slots. One can be copied into another slot; from then on
neither sees what is done to the other.
-/

set_option autoImplicit false

namespace ScopedMethods.Log

abbrev Shelf := Slots String Verbosity

inductive ShelfStep where
  | create (base : Severity)
  | copy (source : String)
  | setBase (s : Severity) (reset : Bool)
  | setFor (c : Component) (s : Severity)
  | nameComponents (before : String)
  | base
  | name (c : Option Component)
  | admits (c : Option Component)

inductive ShelfAnswer where
  | nothing
  | text (s : String)
  | flags (bs : List Bool)

namespace Shelf

def change (slot : String) (f : Verbosity → Verbosity) (s : Shelf) : Shelf :=
  match s.get? slot with
  | none => s
  | some v => s.set slot (f v)

def ask (slot : String) (f : Verbosity → ShelfAnswer) (s : Shelf) : ShelfAnswer :=
  (s.get? slot).elim .nothing f

def step (s : Shelf) (slot : String) : ShelfStep → ShelfAnswer × Shelf
  | .create base => (.nothing, s.set slot (Verbosity.new base))
  | .copy source =>
    match s.get? source with
    | none => (.nothing, s)
    | some v => (.nothing, s.set slot v.copy)
  | .setBase base reset => (.nothing, s.change slot (Verbosity.setBase base reset))
  | .setFor c v => (.nothing, s.change slot (Verbosity.setFor c v))
  | .nameComponents before =>
    (.nothing, s.change slot (Verbosity.nameComponents Component.table before))
  | .base => (s.ask slot fun v => .text v.base.text, s)
  | .name c => (s.ask slot fun v => .text (v.componentText c), s)
  | .admits c => (s.ask slot fun v => .flags (Severity.all.map fun x => v.admits x c), s)

def run (s : Shelf) : List (String × ShelfStep) → List ShelfAnswer × Shelf
  | [] => ([], s)
  | (slot, q) :: qs =>
    let (a, s) := s.step slot q
    let (as, s) := run s qs
    (a :: as, s)

end Shelf

end ScopedMethods.Log

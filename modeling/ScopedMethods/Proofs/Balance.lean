import ScopedMethods.Proofs.Attempts
import ScopedMethods.Proofs.Representation

/-!
# Conservation of the counts

Whatever is done to stacks over one ledger, the count of a name is the number of candidates in
effect for it, and the tally is the number of open scopes. A level is a word of 32 bits, so
this needs that a scope is open where one is left, and that without a depth limit fewer than
`2 ^ 32` of them are open on one stack.
-/

set_option autoImplicit false

namespace ScopedMethods

namespace Bench

variable {κ : Type} [DecidableEq κ] {b : Bench κ}

/-- The books agree with the stacks; counts and tally are words that wrap. -/
structure Balanced (b : Bench κ) : Prop where
  counted : ∀ name, b.ledger.count b.store name = Int32.ofNat (b.inEffect name)
  active : b.ledger.active = UInt64.ofNat b.openScopes
  resting : (∀ p ∈ b.table, p.2.level = 0) →
    (∀ name, b.ledger.count b.store name = 0) ∧ b.ledger.active = 0

theorem Sound.balanced (hb : b.Sound) : b.Balanced where
  counted := hb.counted
  active := hb.active
  resting := by
    intro h
    obtain ⟨h1, h2⟩ := hb.resting h
    constructor
    · intro name
      rw [hb.counted, h1]
      rfl
    · rw [hb.active, h2]
      rfl

end Bench

/-- Stacks by themselves over one ledger, where each laying may end at any query, and the
stacks of every realm, where each entry may: after every run the counts and the tally are those
of the scopes that are open. -/
theorem counters_conserved (v : Option Log.Verbosity) :
    (∀ qs, (Session.new v).Lawful qs → ((Session.new v).run qs).2.bench.Balanced) ∧
      (∀ (κ : Type) [DecidableEq κ] (s : Store) (id : Nat) (ds : List (BenchDeed κ)),
        (Bench.new κ s id).Lawful ds → ((Bench.new κ s id).run ds).Balanced) ∧
      ∀ os, (Arena.new v).Regular os → ∀ key r, ((Arena.new v).pass os).realm? key = some r →
        (r.bench ((Arena.new v).pass os).store).Balanced := by
  refine ⟨fun qs hl => ?_, fun κ _ s id ds hl => ?_, fun os hl key r hr => ?_⟩
  · have h0 : (Session.new v).bench.Sound := Bench.sound_empty _ 0
    exact (Session.sound_run h0 hl).balanced
  · exact (Bench.upright_run (Bench.upright_new s id) hl).sound.balanced
  · have h := Arena.sound_pass (Arena.sound_new v) hl
    exact (h.realms hr).bench.balanced

def halfLaid : List Session.Step :=
  [⟨0, .types (.register "Base" ⟨0⟩ .reporting)⟩, ⟨0, .types (.register "Derived" ⟨1⟩ .reporting)⟩,
   ⟨0, .types (.declare ⟨1⟩ ⟨"f", [⟨1⟩], true, true, none⟩ .reporting)⟩,
   ⟨0, .types (.fault .methods ⟨2⟩ true)⟩,
   ⟨0, .stack "a" (.create 0)⟩, ⟨0, .stack "b" (.create 2)⟩,
   ⟨0, .stack "a" (.enter .raising)⟩, ⟨0, .stack "a" (.lay ⟨2⟩)⟩,
   ⟨0, .stack "a" (.enter .reporting)⟩, ⟨0, .stack "b" (.enter .raising)⟩,
   ⟨0, .stack "b" (.lay ⟨1⟩)⟩, ⟨0, .stack "a" .destroy⟩]

/-- A thread is inside of a scope, another one is cut off in one, and the first enters a scope
over the same type twice, where the second laying of it is broken off. -/
def brokenInside : List Arena.Occurrence :=
  [.attempt 0 (.act (.register "Base" ⟨0⟩)),
   .attempt 0 (.act (.declare ⟨1⟩ ⟨"f", [⟨1⟩], true, true, none⟩)),
   .attempt 0 (.act (.enter 0 [⟨1⟩])), .attempt 1 (.act (.enter 0 [⟨1⟩])), .cut 1,
   .attempt 0 (.broken 0 [⟨1⟩, ⟨1⟩] 9 (.raised "parent fault 1"))]

theorem counters_halfLaid :
    ((Session.new none).run halfLaid).2.bench.inEffect "f" = 1 ∧
      ((Session.new none).run halfLaid).2.bench.Balanced ∧
      shadowing.Balanced ∧
      ∃ r, ((Arena.new none).pass brokenInside).realm? 0 = some r ∧
        (r.bench ((Arena.new none).pass brokenInside).store).Balanced := by
  obtain ⟨h1, h2, h3⟩ := counters_conserved none
  have hr : (((Arena.new none).pass brokenInside).realm? 0).isSome = true := by decide +kernel
  obtain ⟨r, hr⟩ := Option.isSome_iff_exists.1 hr
  exact ⟨by decide +kernel, h1 halfLaid (by decide +kernel),
    h2 Nat (Store.new none) 0 halfShadowed (by decide +kernel), r, hr,
    h3 brokenInside (by decide +kernel) 0 r hr⟩

section Wrapping

def deep (s : Store) (n : Nat) : Bench Nat :=
  ⟨s, { Ledger.new 0 with active := UInt64.ofNat n }, [(0, ⟨0, 0, UInt32.ofNat n, []⟩)]⟩

def entering (n : Nat) : List (BenchDeed Nat) :=
  .create 0 0 0 :: List.replicate n (.perform 0 ⟨0, ""⟩ .enter)

def leavingNothing : List (BenchDeed Nat) := [.create 0 0 0, .perform 0 ⟨0, ""⟩ .leave]

theorem enter_deep (s : Store) (n : Nat) :
    ∃ s', (deep s n).perform (.perform 0 ⟨0, ""⟩ .enter) = deep s' (n + 1) := by
  refine ⟨s.note ⟨0, ""⟩ (.scopeEntered 0 (UInt32.ofNat n + 1)), ?_⟩
  rw [deep, deep, UInt64.ofNat_add, UInt32.ofNat_add]
  rfl

theorem run_entering (s : Store) (n : Nat) :
    ∃ s', (Bench.new Nat s 0).run (entering n) = deep s' n := by
  induction n with
  | zero => exact ⟨s, rfl⟩
  | succ n ih =>
    obtain ⟨s', h⟩ := ih
    obtain ⟨s'', h'⟩ := enter_deep s' n
    have hlast : entering (n + 1) = entering n ++ [.perform 0 ⟨0, ""⟩ .enter] := by
      rw [entering, List.replicate_succ']
      rfl
    refine ⟨s'', ?_⟩
    rw [Bench.run] at h
    rw [hlast, Bench.run, List.foldl_append, h]
    exact h'

theorem openScopes_deep (s : Store) (n : Nat) : (deep s n).openScopes = n % 2 ^ 32 := by
  simp [deep, Bench.openScopes, Slots.total]

/-- After `2 ^ 32` scopes the level is `0` and the tally is not, and leaving a scope where none
is open takes the words of level and tally below `0`, to different values. -/
theorem wrapped_unbalanced :
    ¬ ((Bench.new Nat (Store.new none) 0).run (entering (2 ^ 32))).Balanced ∧
      ¬ ((Bench.new Nat (Store.new none) 0).run leavingNothing).Balanced := by
  constructor
  · intro hb
    obtain ⟨s, h⟩ := run_entering (Store.new none) (2 ^ 32)
    rw [h] at hb
    have h1 : UInt64.ofNat (2 ^ 32) = UInt64.ofNat (deep s (2 ^ 32)).openScopes := hb.active
    rw [openScopes_deep] at h1
    exact absurd h1 (by decide)
  · intro hb
    exact absurd hb.active (by decide +kernel)

end Wrapping

end ScopedMethods

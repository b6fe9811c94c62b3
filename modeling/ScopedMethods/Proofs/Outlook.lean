import ScopedMethods.Proofs.Custody
import ScopedMethods.Proofs.Bench
import ScopedMethods.Realm

/-!
# What a thread sees of a realm

A thread sees its level and the lineage of each name. Work on its stack that
changes no older chain is a turn. A move is what one thread does to a realm:
the outlooks of other threads stay, and the tally and the counts go with the
scopes and candidates of all live stacks.
-/

set_option autoImplicit false

namespace ScopedMethods

structure Outlook where
  level : Level
  lineage : String → Lineage

namespace Outlook

def idle : Outlook := ⟨0, fun _ => []⟩

def weight (o : Outlook) (name : String) : Nat := (o.lineage name).entries.length

def leave (o : Outlook) : Outlook := ⟨o.level - 1, fun name => (o.lineage name).popped o.level⟩

theorem level_ne_zero {o : Outlook} {n : Nat} (h : o.level.toNat = n + 1) : o.level ≠ 0 := by
  intro h0
  rw [h0] at h
  cases h

end Outlook

namespace Site

variable {w w₁ w' : Site}

def outlook (w : Site) : Outlook := ⟨w.stack.level, w.lineage⟩

theorem outlook_idle (hw : w.Sound) (h : w.stack.level = 0) : w.outlook = Outlook.idle := by
  have hl : w.lineage = fun _ => [] := funext fun name => lineage_eq_nil hw h name
  rw [outlook, h, hl]
  rfl

theorem outlook_leave (t : Caller) (hw : w.Sound) : (w.leave t).outlook = w.outlook.leave := by
  have hl : (w.leave t).lineage = fun name => (w.lineage name).popped w.stack.level :=
    funext fun name => lineage_leave t hw name
  rw [outlook, hl]
  rfl

/-- Work on a stack that changes no chain there was. -/
structure Turn (w w' : Site) : Prop where
  work : Work w w'
  maxDepth : w'.stack.maxDepth = w.stack.maxDepth
  store : w.store.Keeps w'.store

namespace Turn

theorem refl (hw : w.Sound) : Turn w w := ⟨.refl hw, rfl, .refl _⟩

theorem trans (h : Turn w w₁) (h' : Turn w₁ w') : Turn w w' :=
  ⟨h.work.trans h'.work, h'.maxDepth.trans h.maxDepth, h.store.trans h'.store⟩

theorem note (h : Turn w w') (t : Caller) (e : Event) : Turn w (w'.note t e) :=
  ⟨h.work.note t e, h.maxDepth, h.store.note t e⟩

theorem of_same (hw : w.Sound) {s : Store} (hs : w.store.Same s) :
    Turn w ⟨s, w.ledger, w.stack⟩ :=
  ⟨.of_same hw hs, rfl, hs.keeps⟩

theorem of_shed {n : Nat} (h : Shed n w w') : Turn w w' :=
  ⟨.of_shed h, h.maxDepth,
    ⟨le_of_eq (by rw [h.chains]), fun _ => by simp [Store.chain, h.chains], h.verbosity⟩⟩

theorem of_entered (h : Entered w w') : Turn w w' :=
  ⟨.of_entered h, h.maxDepth,
    ⟨le_of_eq (by rw [h.chains]), fun _ => by simp [Store.chain, h.chains], h.verbosity⟩⟩

theorem of_advance (h : Advance w w') (hn : ∀ j, ¬ w.Owns j) : Turn w w' :=
  ⟨.of_advance h, h.maxDepth, ⟨h.size, fun hj => (h.frame hj (hn _)).1, h.verbosity⟩⟩

end Turn

end Site

end ScopedMethods

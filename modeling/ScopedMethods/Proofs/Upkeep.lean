import ScopedMethods.Proofs.Runs

/-!
# Acts that make no chain

Stacks are made, found, given up and destroyed by a custody, which never opens a
chain or a ledger. Apart from an entry and a call for a counter, no act of a thread
makes a chain, or a counter for a name; a realm that is made or destroyed is no
exception, as its ledger comes and goes as a whole.
-/

set_option autoImplicit false

namespace ScopedMethods

/-- Whatever a keeper does to its world relates the world before to the one after. -/
structure Keeper.Upholds {ω : Type} (k : Keeper ω) (R : ω → ω → Prop) : Prop where
  refl : ∀ w, R w w
  trans : ∀ {w w₁ w₂}, R w w₁ → R w₁ w₂ → R w w₂
  create : ∀ t w, R w (k.create t w).2
  destroy : ∀ t id w, R w (k.destroy t id w)
  note : ∀ t e w, R w (k.note t e w)

namespace Custody

variable {ω : Type} {k : Keeper ω} {R : ω → ω → Prop} (hk : k.Upholds R) (t : Caller) (id : Nat)
  (c : Custody) (w : ω)

include hk

theorem upheld_release (cause : ReleaseCause) : R w (c.release k t id cause w).2 := by
  have hn := hk.note t (.stateReleased c.name id t.thread cause) w
  simp only [release]
  split
  · exact hk.trans hn (hk.destroy t id _)
  · exact hn

theorem upheld_honor : R w (c.honor k t id w).2 := by
  simp only [honor]
  split
  · exact upheld_release hk t id _ w _
  · exact hk.note t _ w

theorem upheld_peek : R w (c.peek k t w).2.2 := by
  simp only [peek]
  split
  · exact hk.refl w
  · split
    · exact upheld_honor hk t _ c w
    · exact hk.refl w

theorem upheld_house : R w (c.house k t w).2.2 := by
  have hc := hk.create t w
  simp only [house]
  generalize k.create t w = o at hc
  obtain ⟨made, w₁⟩ := o
  cases made with
  | error f => exact hc
  | ok id => exact hk.trans hc (hk.note t _ w₁)

theorem upheld_obtain : R w (c.obtain k t w).2.2 := by
  have hp := upheld_peek hk t c w
  simp only [obtain]
  generalize c.peek k t w = o at hp
  obtain ⟨found, c₁, w₁⟩ := o
  cases found with
  | some id => exact hp
  | none => exact hk.trans hp (upheld_house hk t c₁ w₁)

theorem upheld_surrender : R w (c.surrender k t w).2.2 := by
  simp only [surrender]
  split
  · exact hk.refl w
  · exact upheld_release hk t _ c w _

theorem upheld_foldl {α : Type} {f : ω → α → ω} (hf : ∀ w x, R w (f w x)) (xs : List α) :
    R w (xs.foldl f w) := by
  induction xs generalizing w with
  | nil => exact hk.refl w
  | cons x xs ih => exact hk.trans (hf w x) (ih _)

theorem upheld_close : R w (c.close k t w).2 :=
  hk.trans (hk.trans (hk.note t _ w) (upheld_foldl hk _ (fun w _ => hk.note t _ w) _))
    (upheld_foldl hk _ (fun w (r : Registration) => hk.destroy t r.state w) _)

theorem upheld_exit : R w (c.exit k t w).2 := by
  simp only [exit]
  split
  · exact hk.refl w
  · simp only
    split
    · exact hk.destroy t _ w
    · exact hk.refl w

end Custody

/-- No chain is made or extended, and no counter made for a name. -/
structure Ledger.Upkept (s : Store) (l : Ledger) (s' : Store) (l' : Ledger) : Prop where
  chains : s'.chains = s.chains
  names : l'.counters = l.counters

namespace Ledger.Upkept

variable {s s₁ s' : Store} {l l₁ l' : Ledger}

theorem refl (s : Store) (l : Ledger) : Ledger.Upkept s l s l := ⟨rfl, rfl⟩

theorem trans (h : Ledger.Upkept s l s₁ l₁) (h' : Ledger.Upkept s₁ l₁ s' l') :
    Ledger.Upkept s l s' l' :=
  ⟨h'.chains.trans h.chains, h'.names.trans h.names⟩

end Ledger.Upkept

namespace Site

theorem upkept_leave (t : Caller) (w : Site) :
    Ledger.Upkept w.store w.ledger (w.leave t).store (w.leave t).ledger :=
  ⟨(revert_frame w.stack.level w.store w.stack.chains).1, rfl⟩

theorem upkept_leaveTimes (t : Caller) (n : Nat) (w : Site) :
    Ledger.Upkept w.store w.ledger (leaveTimes t n w).store (leaveTimes t n w).ledger := by
  induction n generalizing w with
  | zero => exact .refl _ _
  | succ n ih => exact (upkept_leave t w).trans (ih _)

theorem upkept_destroy (t : Caller) (w : Site) :
    Ledger.Upkept w.store w.ledger (w.destroy t).store (w.destroy t).ledger := by
  simp only [destroy]
  split
  · exact ⟨rfl, rfl⟩
  · have h := upkept_leaveTimes t w.stack.level.toNat
      (w.note t (.stackAbandoned w.stack.id w.stack.level))
    exact ⟨h.chains, h.names⟩

end Site

namespace Grounds

def Upkept (g g' : Grounds) : Prop := Ledger.Upkept g.store g.ledger g'.store g'.ledger

theorem upkept_onStack {f : Site → Site}
    (hf : ∀ w : Site, Ledger.Upkept w.store w.ledger (f w).store (f w).ledger) (id : Nat)
    (g : Grounds) : g.Upkept (g.onStack id f) := by
  rw [onStack]
  cases g.stackTable.get? id with
  | none => exact .refl _ _
  | some st => exact hf ⟨g.store, g.ledger, st⟩

theorem upholds (o : Options) : (Grounds.keeper o).Upholds Upkept where
  refl := fun g => .refl g.store g.ledger
  trans := fun h h' => Ledger.Upkept.trans h h'
  create := fun t g => upkept_onStack (f := Site.created t) (fun _ => ⟨rfl, rfl⟩) g.nextStack
    { g with
      stackTable := g.stackTable.set g.nextStack (ScopeStack.new g.nextStack o.maxDepth)
      nextStack := g.nextStack + 1 }
  destroy := fun t id g => upkept_onStack (Site.upkept_destroy t) id g
  note := fun _ _ _ => ⟨rfl, rfl⟩

end Grounds

namespace Realm

def Upkept (r : Realm) (s : Store) (r' : Realm) (s' : Store) : Prop :=
  Ledger.Upkept s r.ledger s' r'.ledger

variable (t : Caller) (r : Realm) (s : Store)

theorem upkept_peek : r.Upkept s (r.peek t s).2.1 (r.peek t s).2.2 :=
  Custody.upheld_peek (Grounds.upholds r.options) t r.custody (r.grounds s)

theorem upkept_lookup (name : String) :
    r.Upkept s (r.lookup t name s).2.1 (r.lookup t name s).2.2 := by
  have h := upkept_peek t r s
  simp only [lookup]
  generalize r.peek t s = o at h
  obtain ⟨found, r₁, s₁⟩ := o
  cases found <;> exact h

theorem upkept_activeHere : r.Upkept s (r.activeHere t s).2.1 (r.activeHere t s).2.2 := by
  simp only [activeHere]
  split
  · exact .refl _ _
  · exact upkept_peek t r s

theorem upkept_requestReclaim :
    r.Upkept s (r.requestReclaim t s).2.1 (r.requestReclaim t s).2.2 :=
  ⟨rfl, rfl⟩

theorem upkept_leave (id : Nat) : r.Upkept s (r.leave t id s).1 (r.leave t id s).2 := by
  have h := Grounds.upkept_onStack (Site.upkept_leave t) id (r.grounds s)
  simp only [leave]
  split
  · exact Ledger.Upkept.trans h
      (Custody.upheld_surrender (Grounds.upholds r.options) t r.custody _)
  · exact h

theorem upkept_threadExit : r.Upkept s (r.threadExit t s).1 (r.threadExit t s).2 :=
  Custody.upheld_exit (Grounds.upholds r.options) t r.custody (r.grounds s)

theorem upkept_destroy : r.Upkept s (r.destroy t s).1 (r.destroy t s).2 := by
  have h := Custody.upheld_close (Grounds.upholds r.options) t r.custody
    (r.grounds (s.note t (.realmClosing r.id r.ledger.active.toNat r.ledger.size)))
  exact ⟨h.chains, h.names⟩

end Realm

namespace Arena

/-- No chain is made, and under one key the counters of names stay. -/
structure Upkept (key : Nat) (a a' : Arena) : Prop where
  chains : a'.store.chains = a.store.chains
  names : a'.counter? key = a.counter? key

variable {a a₁ a' : Arena} {t k key : Nat} {r r' : Realm}

namespace Upkept

theorem refl (key : Nat) (a : Arena) : Upkept key a a := ⟨rfl, rfl⟩

theorem trans (h : Upkept key a a₁) (h' : Upkept key a₁ a') : Upkept key a a' :=
  ⟨h'.chains.trans h.chains, h'.names.trans h.names⟩

theorem of_realms (hs : a.store.Same a'.store) (hr : a'.realms = a.realms) : Upkept key a a' where
  chains := hs.chains
  names := by
    funext name
    rw [counter?, counter?, realm?, realm?, hr]

end Upkept

theorem upkept_setRealm (hr : a.realm? k = some r) {s : Store} (h : r.Upkept a.store r' s)
    (key : Nat) : Upkept key a (a.setRealm k r' s) where
  chains := h.chains
  names := by
    funext name
    rw [counter?_setRealm]
    split
    · rename_i hk
      rw [← hk, counter?_some hr, h.names]
    · rfl

theorem upkept_obtainRealm (a : Arena) (t k key : Nat) :
    Upkept key a (a.obtainRealm t k).2 ∧
      (a.obtainRealm t k).2.realm? k = some (a.obtainRealm t k).1 := by
  rw [obtainRealm]
  cases hr : a.realm? k with
  | some r => exact ⟨.refl key a, hr⟩
  | none =>
    refine ⟨⟨rfl, ?_⟩, (realm?_setRealm k).trans (if_pos rfl)⟩
    funext name
    show (a.setRealm k _ _).counter? key name = _
    rw [counter?_setRealm]
    split
    · rename_i hk
      rw [← hk, counter?_none hr]
      rfl
    · rfl

theorem upkept_inRealm {α : Type} (f : Realm → Store → α × Realm × Store)
    (hf : ∀ (r : Realm) s, r.Upkept s (f r s).2.1 (f r s).2.2) (a : Arena) (t k key : Nat) :
    Upkept key a (a.inRealm t k f).2 := by
  obtain ⟨h, hr⟩ := upkept_obtainRealm a t k key
  exact h.trans (upkept_setRealm hr (hf _ _) key)

theorem upkept_leaveFrame (a : Arena) (t : Nat) (f : Frame) (key : Nat) :
    Upkept key a (a.leaveFrame t f) := by
  rw [leaveFrame]
  cases hr : a.realm? f.realm with
  | none => exact .refl key a
  | some r => exact upkept_setRealm hr (Realm.upkept_leave (a.caller t) r a.store f.stack) key

theorem upkept_leaveFrames (a : Arena) (t : Nat) (fs : List Frame) (key : Nat) :
    Upkept key a (a.leaveFrames t fs) := by
  induction fs generalizing a with
  | nil => exact .refl key a
  | cons f fs ih => exact (upkept_leaveFrame a t f key).trans (ih _)

theorem upkept_setThread (a : Arena) (t : Nat) (x : ThreadState) (key : Nat) :
    Upkept key a (a.setThread t x) :=
  .of_realms (.refl _) rfl

theorem upkept_exitRealm (a : Arena) (t k key : Nat) : Upkept key a (a.exitRealm t k) := by
  rw [exitRealm]
  cases hr : a.realm? k with
  | none => exact .refl key a
  | some r => exact upkept_setRealm hr (Realm.upkept_threadExit (a.caller t) r a.store) key

theorem upkept_exitRealms (a : Arena) (t : Nat) (keys : List Nat) (key : Nat) :
    Upkept key a (keys.foldl (exitRealm t) a) := by
  induction keys generalizing a with
  | nil => exact .refl key a
  | cons k keys ih => exact (upkept_exitRealm a t k key).trans (ih _)

theorem upkept_exit (a : Arena) (t key : Nat) : Upkept key a (a.exit t) := by
  have h := (upkept_leaveFrames a t (a.thread t).frames key).trans (upkept_exitRealms _ t
    (a.leaveFrames t (a.thread t).frames).realms.keys key)
  exact ⟨h.chains, h.names⟩

theorem upkept_raise (a : Arena) (t n key : Nat) : Upkept key a (a.raise t n).2 := by
  simp only [raise]
  split
  · exact .refl key a
  · exact (upkept_leaveFrames a t _ key).trans (upkept_setThread _ t _ key)

theorem chains_destroyRealm (a : Arena) (t k : Nat) :
    (a.destroyRealm t k).store.chains = a.store.chains := by
  rw [destroyRealm]
  cases a.realm? k with
  | none => rfl
  | some r => exact (Realm.upkept_destroy (a.caller t) r a.store).chains

theorem counter?_destroyRealm (a : Arena) (t k key : Nat) (name : String) :
    (a.destroyRealm t k).counter? key name = if k = key then none else a.counter? key name := by
  rw [counter?, realm?_destroyRealm]
  split <;> rfl

theorem chains_createRealm (a : Arena) (t k : Nat) (o : Options) :
    (a.createRealm t k o).store.chains = a.store.chains :=
  chains_destroyRealm { a with store := (Realm.create k o (a.caller t) a.store).2 } t k

theorem counter?_createRealm (a : Arena) (t k : Nat) (o : Options) (key : Nat) (name : String) :
    (a.createRealm t k o).counter? key name = if k = key then none else a.counter? key name := by
  rw [counter?, realm?_createRealm]
  split <;> rfl

end Arena

def Act.ends (key : Nat) : Act → Bool
  | .createRealm k _ | .destroyRealm k => k = key
  | _ => false

def Act.makes : Act → Bool
  | .enter _ _ | .nameUsage _ _ => true
  | _ => false

namespace Arena

variable {a : Arena} {t key : Nat} {act : Act}

theorem upkept_perform (he : act.ends key = false) (hm : act.makes = false) :
    Upkept key a (a.perform t act).2 := by
  cases act with
  | register name parent => exact .of_realms (same_register _ _ _ _ _) rfl
  | declare on d => exact .of_realms (same_declare _ _ _ _ _) rfl
  | setFault q ty on => exact .of_realms (.refl _) rfl
  | createRealm k o =>
    have hk : k ≠ key := of_decide_eq_false he
    refine ⟨chains_createRealm a t k o, funext fun name => ?_⟩
    rw [show (a.perform t (.createRealm k o)).2 = a.createRealm t k o from rfl,
      counter?_createRealm, if_neg hk]
  | destroyRealm k =>
    have hk : k ≠ key := of_decide_eq_false he
    refine ⟨chains_destroyRealm a t k, funext fun name => ?_⟩
    rw [show (a.perform t (.destroyRealm k)).2 = a.destroyRealm t k from rfl,
      counter?_destroyRealm, if_neg hk]
  | enter k types => cases hm
  | leave =>
    simp only [perform]
    split
    · exact .refl key a
    · exact (upkept_leaveFrame a t _ key).trans (upkept_setThread _ t _ key)
  | raise n => exact upkept_raise a t n key
  | lookup k name =>
    exact upkept_inRealm _ (fun r s => Realm.upkept_lookup (a.caller t) r s name) a t k key
  | activeHere k =>
    exact upkept_inRealm _ (fun r s => Realm.upkept_activeHere (a.caller t) r s) a t k key
  | currentLevel k =>
    exact upkept_inRealm _ (fun r s => Realm.upkept_peek (a.caller t) r s) a t k key
  | nameUsage k name => cases hm
  | requestReclaim k =>
    exact upkept_inRealm _ (fun r s => Realm.upkept_requestReclaim (a.caller t) r s) a t k key
  | exit => exact upkept_exit a t key
  | setNickname name system => exact .of_realms (same_setNickname a t name system) rfl

theorem upkept_withThread (a : Arena) (t key : Nat) : Upkept key a (a.withThread t) :=
  .of_realms (by rw [store_withThread]; exact .refl _) realms_withThread

theorem upkept_step (he : act.ends key = false) (hm : act.makes = false) :
    Upkept key a (a.step t act).2 := by
  by_cases hexit : act = .exit
  · subst hexit
    simp only [step]
    split
    · exact upkept_exit a t key
    · exact .refl key a
  · rw [step_eq hexit]
    exact (upkept_withThread a t key).trans (upkept_perform he hm)

end Arena

end ScopedMethods

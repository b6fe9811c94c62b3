import ScopedMethods.Proofs.Runs
import ScopedMethods.Session.Run

/-!
# Who holds a stack

A question to a realm answers a pending reclaim request, but makes no stack. An
entry makes one before it is known whether the scope can be entered; if idle
stacks are released, a thread that is refused outside of all scopes is left
without one.
-/

set_option autoImplicit false

namespace ScopedMethods

namespace Custody

variable {ω : Type} {k : Keeper ω} {c : Custody} {w : ω} {t : Caller} {u id : Nat}

theorem held?_release (state : Nat) (cause : ReleaseCause) :
    (c.release k t state cause w).1.held? u = if t.thread = u then none else c.held? u :=
  held?_setContext _

theorem held?_surrender : (c.surrender k t w).2.1.held? t.thread = none := by
  rw [surrender]
  cases hid : c.held? t.thread with
  | none => exact hid
  | some state => exact (held?_release state _).trans (if_pos rfl)

theorem held?_exit : (c.exit k t w).1.held? t.thread = none := by
  rw [exit]
  cases hid : c.held? t.thread with
  | none => exact held?_erase.trans (if_pos rfl)
  | some state => exact held?_erase.trans (if_pos rfl)

theorem held_of_peek (h : (c.peek k t w).2.1.held? u = some id) : c.held? u = some id := by
  cases hid : c.held? t.thread with
  | none =>
    rw [peek, hid] at h
    exact h
  | some state =>
    rw [peek, hid] at h
    have hsame : ∀ v, (c.setContext t.thread ⟨some state, false⟩).held? v = c.held? v :=
      held?_setContext_same hid
    simp only at h
    split at h
    · simp only [honor] at h
      split at h
      · rw [held?_release] at h
        split at h
        · cases h
        · exact (hsame u).symm.trans h
      · exact (hsame u).symm.trans h
    · exact h

end Custody

namespace Realm

/-- No thread holds a stack that it did not hold before. -/
def HoldsNoMore (r r' : Realm) : Prop :=
  ∀ u id, r'.custody.held? u = some id → r.custody.held? u = some id

variable {r : Realm} {s : Store} {t : Caller} {id : Nat} {st : ScopeStack}

theorem peek_holdsNoMore (r : Realm) (s : Store) (t : Caller) :
    r.HoldsNoMore (r.peek t s).2.1 := fun _ _ h => Custody.held_of_peek h

theorem lookup_holdsNoMore (r : Realm) (s : Store) (t : Caller) (name : String) :
    r.HoldsNoMore (r.lookup t name s).2.1 := by
  have h := peek_holdsNoMore r s t
  rw [lookup]
  generalize r.peek t s = p at h
  obtain ⟨found, r₁, s₁⟩ := p
  cases found <;> exact h

theorem activeHere_holdsNoMore (r : Realm) (s : Store) (t : Caller) :
    r.HoldsNoMore (r.activeHere t s).2.1 := by
  rw [activeHere]
  split
  · exact fun _ _ h => h
  · exact peek_holdsNoMore r s t

theorem nameUsage_holdsNoMore (r : Realm) (s : Store) (t : Caller) (name : String) :
    r.HoldsNoMore (r.nameUsage t name s).2.1 := fun _ _ h => h

theorem requestReclaim_holdsNoMore (r : Realm) (s : Store) (t : Caller) :
    r.HoldsNoMore (r.requestReclaim t s).2.1 := fun u _ h =>
  ((Custody.flag_frame r.custody.register r.custody).2.2 u).symm.trans h

theorem held?_threadExit (r : Realm) (t : Caller) :
    (r.threadExit t s).1.custody.held? t.thread = none :=
  Custody.held?_exit

theorem leave_released (hr : r.Sound s) (hid : r.custody.held? t.thread = some id)
    (hrel : r.options.releaseIdle = true) (h0 : (r.outlook s t.thread).leave.level = 0) :
    (r.leave t id s).1.custody.held? t.thread = none := by
  obtain ⟨st, hst⟩ := hr.stack_of_held hid
  rw [outlook_some hid hst] at h0
  have hg : (r.grounds s).stackTable.get? id = some st := hst
  have hlevel : (Site.leave t ⟨s, r.ledger, st⟩).stack.level = 0 := h0
  rw [leave, onStack_eq hg, if_pos]
  · exact Custody.held?_surrender
  · rw [Grounds.levelOf, Slots.get?_set_self]
    exact Bool.and_eq_true_iff.2 ⟨decide_eq_true hlevel, hrel⟩

theorem enterOn_released (hr : r.Sound s) (hid : r.custody.held? t.thread = some id)
    (hrel : r.options.releaseIdle = true) (h0 : (r.outlook s t.thread).level = 0) (c : Catalog)
    (types : List TypeId) {f : Failure} (hf : (enterOn c t types id r s).1 = .error f) :
    (enterOn c t types id r s).2.1.custody.held? t.thread = none := by
  obtain ⟨st, hst⟩ := hr.stack_of_held hid
  have hold : r.outlook s t.thread = (⟨s, r.ledger, st⟩ : Site).outlook := outlook_some hid hst
  rw [hold] at h0
  have hz : st.level = 0 := h0
  have hfull : ¬ (⟨s, r.ledger, st⟩ : Site).full = true := by
    intro hfull
    obtain ⟨hne, hle⟩ := Site.full_iff.1 hfull
    simp only [hz, UInt32.toNat_zero, Nat.le_zero] at hle
    exact hne (UInt32.toNat_inj.1 hle)
  obtain ⟨w, he, heq⟩ := enterOn_eq hr hst c t types hfull fun _ => by
    rw [hz, UInt32.toNat_zero]
    decide
  obtain ⟨hturn, hleave, -⟩ := Site.laying_spec c t types r.id (hr.sites hst) he
  rw [heq] at hf ⊢
  generalize layTypes c t types r.id w = o at hturn hleave hf ⊢
  obtain ⟨result, w₂⟩ := o
  obtain ⟨hm, hout⟩ := move_turn hr hid hst hturn
  cases result with
  | ok u => cases hf
  | error f =>
    apply leave_released hm.sound hid hrel
    rw [hout, hleave]
    exact h0

/-- No thread is refused outside of all scopes and left with a stack. -/
theorem enter_released (hr : r.Sound s) (c : Catalog) (t : Caller) (types : List TypeId)
    (hrel : r.options.releaseIdle = true) (h0 : (r.outlook s t.thread).level = 0) {f : Failure}
    (hf : (r.enter c t types s).1 = .error f) :
    (r.enter c t types s).2.1.custody.held? t.thread = none := by
  obtain ⟨r₁, s₁, id, hq, hid, heq⟩ := enter_on hr c t types
  rw [heq] at hf ⊢
  apply enterOn_released hq.move.sound hid (by rw [hq.move.options, hrel]) _ c types hf
  rw [hq.same, h0]

/-- There are as many live stacks as threads that hold one. -/
theorem liveStacks_eq (hr : r.Sound s) {us : List Nat} (hus : us.Nodup)
    (hmem : ∀ u id, r.custody.held? u = some id → u ∈ us) :
    r.liveStacks = us.countP fun u => (r.custody.held? u).isSome := by
  have howners : r.liveStacks = (r.custody.register.map Registration.owner).length :=
    (List.length_map _).symm
  rw [howners, List.countP_eq_length_filter]
  apply List.Perm.length_eq
  apply (List.perm_ext_iff_of_nodup hr.custody.owners_nodup (hus.filter _)).2
  intro u
  rw [hr.custody.mem_owners, List.mem_filter, Option.isSome_iff_exists]
  exact ⟨fun ⟨id, hid⟩ => ⟨hmem u id hid, id, hid⟩, And.right⟩

end Realm

namespace Arena

def held? (a : Arena) (key u : Nat) : Option Nat := (a.realm? key).bind fun r => r.custody.held? u

def HoldsNoMore (a a' : Arena) : Prop :=
  ∀ key u id, a'.held? key u = some id → a.held? key u = some id

variable {a a' a₁ : Arena} {t key : Nat} {r : Realm}

theorem HoldsNoMore.trans (h : HoldsNoMore a a₁) (h' : HoldsNoMore a₁ a') : HoldsNoMore a a' :=
  fun key u id hid => h key u id (h' key u id hid)

theorem holdsNoMore_of_realms (h : a'.realms = a.realms) : HoldsNoMore a a' := by
  intro k u id hid
  rw [held?, realm?, ← h]
  exact hid

theorem holdsNoMore_setRealm (hr : a.realm? key = some r) {r' : Realm} (h : r.HoldsNoMore r')
    (s' : Store) : HoldsNoMore a (a.setRealm key r' s') := by
  intro k u id hid
  obtain ⟨q, hq, hid⟩ := Option.bind_eq_some_iff.1 hid
  rcases Slots.get?_set_cases hq with ⟨rfl, rfl⟩ | ⟨-, hq⟩
  · rw [held?, hr]
    exact h u id hid
  · rw [held?, realm?, hq]
    exact hid

theorem holdsNoMore_obtainRealm (a : Arena) (t key : Nat) :
    HoldsNoMore a (a.obtainRealm t key).2 ∧
      (a.obtainRealm t key).2.realm? key = some (a.obtainRealm t key).1 := by
  rw [obtainRealm]
  cases hr : a.realm? key with
  | some r => exact ⟨fun _ _ _ h => h, hr⟩
  | none =>
    refine ⟨fun k u id hid => ?_, (realm?_setRealm key).trans (if_pos rfl)⟩
    obtain ⟨q, hq, hid⟩ := Option.bind_eq_some_iff.1 hid
    rcases Slots.get?_set_cases hq with ⟨-, rfl⟩ | ⟨-, hq⟩
    · cases hid
    · rw [held?, realm?, hq]
      exact hid

theorem holdsNoMore_inRealm {α : Type} (a : Arena) (t key : Nat)
    (f : Realm → Store → α × Realm × Store) (hf : ∀ (r : Realm) s, r.HoldsNoMore (f r s).2.1) :
    HoldsNoMore a (a.inRealm t key f).2 := by
  obtain ⟨h, hr⟩ := holdsNoMore_obtainRealm a t key
  exact h.trans (holdsNoMore_setRealm hr (hf _ _) _)

end Arena

def Act.asks : Act → Bool
  | .lookup _ _ | .activeHere _ | .currentLevel _ | .nameUsage _ _ | .requestReclaim _ => true
  | _ => false

namespace Arena

theorem holdsNoMore_perform (a : Arena) (t : Nat) {act : Act} (h : act.asks = true) :
    HoldsNoMore a (a.perform t act).2 := by
  cases act with
  | lookup key name =>
    exact holdsNoMore_inRealm a t key (fun r s => r.lookup (a.caller t) name s)
      fun r s => r.lookup_holdsNoMore s (a.caller t) name
  | activeHere key =>
    exact holdsNoMore_inRealm a t key (fun r s => r.activeHere (a.caller t) s)
      fun r s => r.activeHere_holdsNoMore s (a.caller t)
  | currentLevel key =>
    exact holdsNoMore_inRealm a t key (fun r s => r.currentLevel (a.caller t) s)
      fun r s => r.peek_holdsNoMore s (a.caller t)
  | nameUsage key name =>
    exact holdsNoMore_inRealm a t key (fun r s => r.nameUsage (a.caller t) name s)
      fun r s => r.nameUsage_holdsNoMore s (a.caller t) name
  | requestReclaim key =>
    exact holdsNoMore_inRealm a t key (fun r s => r.requestReclaim (a.caller t) s)
      fun r s => r.requestReclaim_holdsNoMore s (a.caller t)
  | _ => cases h

theorem holdsNoMore_step (a : Arena) (t : Nat) {act : Act} (h : act.asks = true) :
    HoldsNoMore a (a.step t act).2 := by
  have hne : act ≠ .exit := by
    rintro rfl
    cases h
  rw [step_eq hne]
  exact (holdsNoMore_of_realms realms_withThread).trans (holdsNoMore_perform _ t h)

end Arena

namespace Session

def RealmStep.asks : RealmStep → Bool
  | .create _ | .destroy | .enter _ => false
  | _ => true

variable {s : Session} {t key : Nat}

theorem holdsNoMore_act (s : Session) (t : Nat) (act : Act) (h : act.asks = true) :
    s.arena.HoldsNoMore (s.act t act).2.arena := Arena.holdsNoMore_step s.arena t h

theorem holdsNoMore_lookup (s : Session) (t key : Nat) (name : String) :
    s.arena.HoldsNoMore (s.lookup t key name).2.arena := by
  have h := holdsNoMore_act s t (.lookup key name) rfl
  rw [lookup]
  generalize s.act t (.lookup key name) = o at h
  obtain ⟨e, s'⟩ := o
  cases e <;> exact h

theorem holdsNoMore_level (s : Session) (t key : Nat) :
    s.arena.HoldsNoMore (s.level t key).2.arena := by
  have h := holdsNoMore_act s t (.currentLevel key) rfl
  rw [level]
  generalize s.act t (.currentLevel key) = o at h
  obtain ⟨e, s'⟩ := o
  cases e <;> exact h

theorem holdsNoMore_here (s : Session) (t key : Nat) :
    s.arena.HoldsNoMore (s.here t key).2.arena := by
  have h := holdsNoMore_act s t (.activeHere key) rfl
  rw [here]
  generalize s.act t (.activeHere key) = o at h
  obtain ⟨e, s'⟩ := o
  cases e <;> exact h

theorem holdsNoMore_lookupAll (t key : Nat) (names : List String) (s : Session) :
    s.arena.HoldsNoMore (lookupAll t key names s).2.arena := by
  induction names generalizing s with
  | nil => exact fun _ _ _ h => h
  | cons name names ih =>
    have h := (holdsNoMore_lookup s t key name).trans (ih (s.lookup t key name).2)
    rw [lookupAll]
    generalize s.lookup t key name = o at h
    obtain ⟨id, s₁⟩ := o
    cases id <;> exact h

theorem holdsNoMore_realmStep (s : Session) (t key : Nat) {q : RealmStep} (hq : q.asks = true) :
    s.arena.HoldsNoMore (s.realmStep t key q).2.arena := by
  have hobtained := (Arena.holdsNoMore_obtainRealm s.arena t key).1
  cases q with
  | create o => cases hq
  | destroy => cases hq
  | enter types => cases hq
  | options => exact hobtained
  | anywhere => exact hobtained
  | usage name => exact hobtained
  | tally => exact hobtained
  | lookup name =>
    simp only [realmStep]
    exact holdsNoMore_lookup s t key name
  | keep slot name =>
    simp only [realmStep]
    exact holdsNoMore_lookup s t key name
  | call name index args =>
    simp only [realmStep]
    exact holdsNoMore_lookup s t key name
  | here =>
    simp only [realmStep]
    exact holdsNoMore_here s t key
  | level =>
    simp only [realmStep]
    exact holdsNoMore_level s t key
  | nameUsage name =>
    have h := holdsNoMore_act s t (.nameUsage key name) rfl
    rw [realmStep]
    generalize s.act t (.nameUsage key name) = o at h
    obtain ⟨e, s'⟩ := o
    cases e <;> exact h
  | reclaim =>
    have h := holdsNoMore_act s t (.requestReclaim key) rfl
    rw [realmStep]
    generalize s.act t (.requestReclaim key) = o at h
    obtain ⟨e, s'⟩ := o
    cases e <;> exact h
  | view =>
    have h := (holdsNoMore_lookupAll t key s.names s).trans (holdsNoMore_level _ t key)
    simp only [realmStep]
    exact h.trans (holdsNoMore_here _ t key)

theorem holdsNoMore_answer (s : Session) (t key : Nat) {q : RealmStep} (hq : q.asks = true) :
    s.arena.HoldsNoMore (s.answer ⟨t, .realm key q⟩).2.arena := by
  have hthread : s.arena.HoldsNoMore (s.withThread t).arena :=
    Arena.holdsNoMore_of_realms Arena.realms_withThread
  have h := hthread.trans (holdsNoMore_realmStep (s.withThread t) t key hq)
  simp only [answer]
  exact h

end Session

end ScopedMethods

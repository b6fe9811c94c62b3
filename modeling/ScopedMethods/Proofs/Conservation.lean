import ScopedMethods.Proofs.Answers
import ScopedMethods.Session.Run

/-!
# Sound sessions and arenas

Stacks come and go over one ledger, and scopes are entered, laid over and left
on them in any order; threads act in an arena, and may end abruptly. All of this
keeps the books.
-/

set_option autoImplicit false

namespace ScopedMethods

namespace Session

def bench (s : Session) : Bench String := ⟨s.store, s.ledger, s.stackTable⟩

/-- Requests that reach the counts through stacks only. Without a depth limit
the level of a stack must not wrap around: 0 means that no scope is open on it. -/
def Permits (s : Session) : Request → Prop
  | .types _ => True
  | .kept _ => True
  | .ledger (.add _ _) => False
  | .ledger _ => True
  | .stack slot (.enter _) =>
    ∀ st ∈ s.stackTable.get? slot, st.maxDepth = 0 → st.level.toNat + 1 < 2 ^ 32
  | .stack _ _ => True
  | _ => False

instance (s : Session) (q : Request) : Decidable (s.Permits q) := by
  unfold Permits
  split <;> infer_instance

def Lawful : Session → List Step → Prop
  | _, [] => True
  | s, q :: rest => s.Permits q.request ∧ Lawful (s.step q).2 rest

instance decidableLawful (s : Session) : (qs : List Step) → Decidable (s.Lawful qs)
  | [] => .isTrue trivial
  | q :: rest =>
    have := decidableLawful (s.step q).2 rest
    inferInstanceAs (Decidable (s.Permits q.request ∧ Lawful (s.step q).2 rest))

variable {s : Session} {t : Nat} {slot : String} {st : ScopeStack}

theorem sound_setSite (hs : s.bench.Sound) (hst : s.stackTable.get? slot = some st) {w : Site}
    (hw : Site.Work (s.site st) w) : (s.setSite slot w).bench.Sound :=
  hs.put hst hw

theorem sound_destroyStack (hs : s.bench.Sound) (t : Nat) (slot : String) :
    (s.destroyStack t slot).bench.Sound ∧
      (s.destroyStack t slot).stackTable.get? slot = none := by
  rw [destroyStack]
  cases hst : s.stackTable.get? slot with
  | none => exact ⟨hs, hst⟩
  | some st =>
    have hw := hs.sites hst
    have hput := sound_setSite hs hst (Site.Work.destroy (s.caller t) hw)
    have hget : (s.setSite slot ((s.site st).destroy (s.caller t))).stackTable.get? slot =
        some ((s.site st).destroy (s.caller t)).stack := Slots.get?_set_self _ _ _
    have herase := hput.erase hget (Site.level_destroy (s.caller t) hw)
    refine ⟨herase.1, ?_⟩
    simp only
    rw [Slots.get?_erase, if_pos rfl]

theorem sound_createStack (hs : s.bench.Sound) (t : Nat) (slot : String) (maxDepth : Level) :
    (s.createStack t slot maxDepth).bench.Sound := by
  have hnote := hs.same ((Store.Same.refl s.store).note (s.caller t)
    (.stackCreated s.nextStack (s.caller t).thread))
  obtain ⟨h1, h2⟩ := sound_destroyStack
    (s := s.setStore (s.store.note (s.caller t) (.stackCreated s.nextStack (s.caller t).thread)))
    hnote t slot
  exact (h1.new h2 s.nextStack maxDepth).1

theorem sound_stackStep (hs : s.bench.Sound) (step : StackStep)
    (hp : s.Permits (.stack slot step)) : (s.stackStep t slot step).2.bench.Sound := by
  cases hst : s.stackTable.get? slot with
  | none =>
    cases step with
    | create maxDepth => exact sound_createStack hs t slot maxDepth
    | _ => simpa only [stackStep, hst] using hs
  | some st =>
    have hw := hs.sites hst
    cases step with
    | create maxDepth => exact sound_createStack hs t slot maxDepth
    | enter form =>
      have h := sound_setSite hs hst (Site.Work.enter (s.caller t) hw (hp st hst))
      simpa only [stackStep, hst] using h
    | lay ty =>
      simp only [stackStep, hst]
      split
      · exact hs
      · rename_i h0
        have hpos : 0 < st.level.toNat := Nat.pos_of_ne_zero fun h => h0 (UInt32.toNat_inj.1 h)
        exact sound_setSite hs hst (Site.Work.lay s.arena.catalog (s.caller t) ty hw hpos)
    | leave =>
      simp only [stackStep, hst]
      split
      · exact hs
      · rename_i h0
        have hpos : 0 < st.level.toNat := Nat.pos_of_ne_zero fun h => h0 (UInt32.toNat_inj.1 h)
        exact sound_setSite hs hst (Site.Work.leave (s.caller t) hw hpos)
    | chain name keep =>
      simp only [stackStep, hst]
      cases keep <;> exact hs
    | destroy =>
      simp only [stackStep, hst]
      exact (sound_destroyStack hs t slot).1

theorem sound_act (hs : s.bench.Sound) (act : Act)
    (h : s.store.Same (s.arena.step t act).2.store) : (s.act t act).2.bench.Sound :=
  hs.same h

theorem sound_typeStep (hs : s.bench.Sound) (step : TypeStep) :
    (s.typeStep t step).2.bench.Sound := by
  have hthread : s.store.Same (s.arena.withThread t).store := by
    rw [Arena.store_withThread]
    exact .refl _
  cases step with
  | register name parent form =>
    have h := sound_act hs (.register name parent)
      (hthread.trans (Arena.same_register _ _ name parent _))
    simp only [typeStep]
    split
    all_goals
      rename_i heq
      rw [heq] at h
      exact h
  | declare on d form =>
    have h := sound_act hs (.declare on d)
      (hthread.trans (Arena.same_declare _ _ on d _))
    simp only [typeStep]
    split
    all_goals
      rename_i heq
      rw [heq] at h
      exact h
  | fault q ty on => exact sound_act hs (.setFault q ty on) hthread
  | _ => exact hs

theorem sound_step (hs : s.bench.Sound) {q : Step} (hp : s.Permits q.request) :
    (s.step q).2.bench.Sound := by
  have hstore : s.store.Same (s.fresh.withThread q.thread).store := by
    rw [show (s.fresh.withThread q.thread).store = s.fresh.store from Arena.store_withThread]
    exact ⟨rfl, rfl, rfl⟩
  have h : (s.fresh.withThread q.thread).bench.Sound := hs.same hstore
  obtain ⟨t, r⟩ := q
  cases r with
  | types step => exact sound_typeStep h step
  | kept step =>
    cases step with
    | same a b =>
      simp only [step, answer, keptStep]
      split <;> exact h
    | _ => exact h
  | ledger step =>
    cases step with
    | add => exact hp.elim
    | _ => exact h
  | stack slot step => exact sound_stackStep h step hp
  | _ => exact hp.elim

theorem sound_run {qs : List Step} (hs : s.bench.Sound) (hl : s.Lawful qs) :
    (s.run qs).2.bench.Sound := by
  induction qs generalizing s with
  | nil => exact hs
  | cons q qs ih => exact ih (sound_step hs hl.1) hl.2

end Session

namespace Arena

def cutOff (a : Arena) (t : Nat) : Arena :=
  let a := a.realms.keys.foldl (exitRealm t) a
  { a with threads := a.threads.erase t }

/-- What happens in an arena: a thread acts, or it ends abruptly. -/
inductive Happening where
  | act (t : Nat) (act : Act)
  | cut (t : Nat)

def happen (a : Arena) : Happening → Arena
  | .act t act => (a.step t act).2
  | .cut t => a.cutOff t

def through (a : Arena) (hs : List Happening) : Arena := hs.foldl happen a

def Admits (a : Arena) : Happening → Prop
  | .act t act => a.Permits t act
  | .cut _ => True

instance (a : Arena) (h : Happening) : Decidable (a.Admits h) := by
  cases h <;> unfold Admits <;> infer_instance

def Orderly : Arena → List Happening → Prop
  | _, [] => True
  | a, h :: rest => a.Admits h ∧ Orderly (a.happen h) rest

instance decidableOrderly (a : Arena) : (hs : List Happening) → Decidable (a.Orderly hs)
  | [] => .isTrue trivial
  | h :: rest =>
    have := decidableOrderly (a.happen h) rest
    inferInstanceAs (Decidable (a.Admits h ∧ Orderly (a.happen h) rest))

variable {a : Arena}

theorem orderly_append {hs rest : List Happening} :
    a.Orderly (hs ++ rest) ↔ a.Orderly hs ∧ (a.through hs).Orderly rest := by
  induction hs generalizing a with
  | nil => exact (iff_of_eq (true_and _)).symm
  | cons h hs ih => exact (and_congr_right' ih).trans and_assoc.symm

theorem cutOff_spec (ha : a.Sound a.frames) (t : Nat) :
    (a.cutOff t).Sound (a.cutOff t).frames ∧ Shift t a (a.cutOff t) ∧ Settled a (a.cutOff t) ∧
      (a.cutOff t).frames = Function.update a.frames t [] := by
  obtain ⟨h1, h2, h3⟩ := exitRealms_spec ha t a.realms.keys
  -- A thread is inside of scopes of realms that are there, and leaves them all.
  have hnil : (a.frames t).filter (fun f => f.realm ∉ a.realms.keys) = [] := by
    apply List.filter_eq_nil_iff.2
    intro f hf
    obtain ⟨r, hr, -⟩ := ha.framed hf
    simpa using Slots.mem_keys_of_get? hr
  rw [hnil] at h1
  have hframes : (a.cutOff t).frames = Function.update a.frames t [] := by
    funext u
    rw [frames, thread, cutOff, Slots.get?_erase]
    by_cases hu : t = u
    · rw [if_pos hu, hu, Function.update_self]
      rfl
    · rw [if_neg hu, Function.update_of_ne (Ne.symm hu)]
      exact h3.frames u
  obtain ⟨h4, h5⟩ := still_of_realms (b := a.cutOff t) h1 (.refl _) rfl t
  refine ⟨?_, h2.trans h5.shift, h3.toSettled.trans ⟨rfl, fun _ => rfl⟩, hframes⟩
  rw [hframes]
  exact h4

theorem sound_happen (ha : a.Sound a.frames) {h : Happening} (hp : a.Admits h) :
    (a.happen h).Sound (a.happen h).frames := by
  cases h with
  | act t act => exact (step_spec ha hp).sound
  | cut t => exact (cutOff_spec ha t).1

theorem sound_through {hs : List Happening} (ha : a.Sound a.frames) (hl : a.Orderly hs) :
    (a.through hs).Sound (a.through hs).frames := by
  induction hs generalizing a with
  | nil => exact ha
  | cons h hs ih => exact ih (sound_happen ha hl.1) hl.2

end Arena

def cutShort : List Arena.Happening :=
  [.act 0 (.register "Base" ⟨0⟩), .act 0 (.declare ⟨1⟩ ⟨"f", [⟨1⟩], true, true, none⟩),
   .act 0 (.enter 0 [⟨1⟩]), .act 1 (.enter 0 [⟨1⟩]), .cut 0]

end ScopedMethods

import ScopedMethods.Realm
import ScopedMethods.Tenancy

/-!
# Estates

A custody with the world that its states are in, and what threads do with it,
one whole operation at a time. A keeper can be made to write down which states
it makes and destroys; that changes nothing else.
-/

set_option autoImplicit false

namespace ScopedMethods

inductive Deed where
  | made (thread state : Nat)
  | unmade (state : Nat)
deriving DecidableEq, Repr

def Deed.makes (id : Nat) : Deed → Bool
  | made _ i => i = id
  | unmade _ => false

namespace Keeper

variable {ω ω' : Type}

def recorded (k : Keeper ω) : Keeper (ω × List Deed) where
  create t w :=
    match k.create t w.1 with
    | (.error f, w₁) => (.error f, (w₁, w.2))
    | (.ok id, w₁) => (.ok id, (w₁, w.2 ++ [.made t.thread id]))
  destroy t id w := (k.destroy t id w.1, w.2 ++ [.unmade id])
  reclaimable w id := k.reclaimable w.1 id
  note t e w := (k.note t e w.1, w.2)

/-- States are made under numbers that were not in use, and numbers stay in use. -/
structure Fresh (k : Keeper ω) (used : ω → Nat → Prop) : Prop where
  made : ∀ {t : Caller} {w : ω} {id : Nat}, (k.create t w).1 = .ok id →
    ¬ used w id ∧ used (k.create t w).2 id
  create : ∀ t w i, used w i → used (k.create t w).2 i
  destroy : ∀ t id w i, used w i → used (k.destroy t id w) i
  note : ∀ t e w i, used w i → used (k.note t e w) i

/-- A keeper that does as another one does, in a world that shows more. -/
structure Over (π : ω' → ω) (k' : Keeper ω') (k : Keeper ω) : Prop where
  create : ∀ t w, ((k'.create t w).1, π (k'.create t w).2) = k.create t (π w)
  destroy : ∀ t id w, π (k'.destroy t id w) = k.destroy t id (π w)
  reclaimable : ∀ w id, k'.reclaimable w id = k.reclaimable (π w) id
  note : ∀ t e w, π (k'.note t e w) = k.note t e (π w)

theorem over_recorded (k : Keeper ω) : k.recorded.Over Prod.fst k where
  create := by
    intro t w
    simp only [recorded]
    generalize k.create t w.1 = o
    obtain ⟨result, w₁⟩ := o
    cases result <;> rfl
  destroy := fun _ _ _ => rfl
  reclaimable := fun _ _ => rfl
  note := fun _ _ _ => rfl

end Keeper

theorem Lodge.fresh (p : TenancyPlan) :
    (Lodge.keeper p).Fresh fun l id => id < l.nextTenant where
  made := by
    intro t l id h
    simp only [Lodge.keeper, Lodge.create] at h ⊢
    cases hf : l.failures with
    | zero =>
      rw [hf] at h
      cases h
      exact ⟨Nat.lt_irrefl _, Nat.lt_succ_self _⟩
    | succ n =>
      rw [hf] at h
      cases h
  create := by
    intro t l i h
    simp only [Lodge.keeper, Lodge.create]
    cases l.failures with
    | zero => exact Nat.lt_succ_of_lt h
    | succ n => exact h
  destroy := fun _ _ _ _ h => h
  note := fun _ _ _ _ h => h

namespace Custody

variable {ω ω' : Type} {π : ω' → ω} {k' : Keeper ω'} {k : Keeper ω}

def shown {α : Type} (π : ω' → ω) (o : α × Custody × ω') : α × Custody × ω := (o.1, o.2.1, π o.2.2)

section Over

variable (h : k'.Over π k)

include h

theorem release_over (t : Caller) (id : Nat) (cause : ReleaseCause) (c : Custody) (w : ω') :
    ((c.release k' t id cause w).1, π (c.release k' t id cause w).2) =
      c.release k t id cause (π w) := by
  simp only [release]
  split
  · rw [h.destroy, h.note]
  · rw [h.note]

theorem honor_over (t : Caller) (id : Nat) (c : Custody) (w : ω') :
    ((c.honor k' t id w).1, π (c.honor k' t id w).2) = c.honor k t id (π w) := by
  simp only [honor]
  rw [h.reclaimable]
  split
  · exact release_over h t id _ _ w
  · rw [h.note]

theorem peek_over (t : Caller) (c : Custody) (w : ω') :
    shown π (c.peek k' t w) = c.peek k t (π w) := by
  simp only [peek]
  cases c.held? t.thread with
  | none => rfl
  | some id =>
    simp only
    split
    · rw [← honor_over h]
      rfl
    · rfl

theorem house_over (t : Caller) (c : Custody) (w : ω') :
    shown π (c.house k' t w) = c.house k t (π w) := by
  simp only [house]
  rw [← h.create]
  generalize k'.create t w = o
  obtain ⟨result, w₁⟩ := o
  cases result with
  | error f => rfl
  | ok id =>
    simp only [shown]
    rw [h.note]

theorem obtain_over (t : Caller) (c : Custody) (w : ω') :
    shown π (c.obtain k' t w) = c.obtain k t (π w) := by
  simp only [obtain]
  rw [← peek_over h]
  generalize c.peek k' t w = o
  obtain ⟨found, c₁, w₁⟩ := o
  cases found with
  | none => exact house_over h t c₁ w₁
  | some id => rfl

theorem surrender_over (t : Caller) (c : Custody) (w : ω') :
    shown π (c.surrender k' t w) = c.surrender k t (π w) := by
  simp only [surrender]
  cases c.held? t.thread with
  | none => rfl
  | some id =>
    simp only
    rw [← release_over h]
    rfl

theorem requestReclaim_over (t : Caller) (c : Custody) (w : ω') :
    shown π (c.requestReclaim k' t w) = c.requestReclaim k t (π w) := by
  simp only [requestReclaim, shown]
  rw [h.note]

theorem close_over (t : Caller) (c : Custody) (w : ω') :
    ((c.close k' t w).1, π (c.close k' t w).2) = c.close k t (π w) := by
  have hnotes : ∀ (rs : List Registration) (w : ω'),
      π (rs.foldl (fun w r => k'.note t (.stateDeleted c.name r.state r.owner r.nickname) w) w) =
        rs.foldl (fun w r => k.note t (.stateDeleted c.name r.state r.owner r.nickname) w)
          (π w) := by
    intro rs
    induction rs with
    | nil => exact fun _ => rfl
    | cons r rs ih =>
      intro w
      rw [List.foldl_cons, List.foldl_cons, ih, h.note]
  have hdestroys : ∀ (rs : List Registration) (w : ω'),
      π (rs.foldl (fun w r => k'.destroy t r.state w) w) =
        rs.foldl (fun w r => k.destroy t r.state w) (π w) := by
    intro rs
    induction rs with
    | nil => exact fun _ => rfl
    | cons r rs ih =>
      intro w
      rw [List.foldl_cons, List.foldl_cons, ih, h.destroy]
  simp only [close]
  rw [hdestroys, hnotes, h.note]

theorem exit_over (t : Caller) (c : Custody) (w : ω') :
    ((c.exit k' t w).1, π (c.exit k' t w).2) = c.exit k t (π w) := by
  simp only [exit]
  cases c.held? t.thread with
  | none => rfl
  | some id =>
    simp only
    split
    · rw [h.destroy]
    · rfl

end Over

end Custody

structure Estate (ω : Type) where
  custody : Custody
  world : ω

namespace Estate

variable {ω ω' : Type}

inductive Act (ω : Type) where
  | obtain
  | peek
  | surrender
  | requestReclaim
  | exit
  | close
  | change (f : ω → ω)

inductive Answer where
  | state (result : Except Failure Nat)
  | found (id : Option Nat)
  | gaveUp (any : Bool)
  | asked (number : Nat)
  | done

def Answer.handed : Answer → Option Nat
  | state (.ok id) => some id
  | found id => id
  | _ => none

def new (name : CustodyName) (w : ω) : Estate ω := ⟨Custody.new name, w⟩

def step (k : Keeper ω) (e : Estate ω) (t : Caller) : Act ω → Answer × Estate ω
  | .obtain =>
    let (result, c, w) := e.custody.obtain k t e.world
    (.state result, ⟨c, w⟩)
  | .peek =>
    let (id, c, w) := e.custody.peek k t e.world
    (.found id, ⟨c, w⟩)
  | .surrender =>
    let (any, c, w) := e.custody.surrender k t e.world
    (.gaveUp any, ⟨c, w⟩)
  | .requestReclaim =>
    let (n, c, w) := e.custody.requestReclaim k t e.world
    (.asked n, ⟨c, w⟩)
  | .exit =>
    let (c, w) := e.custody.exit k t e.world
    (.done, ⟨c, w⟩)
  | .close =>
    let (c, w) := e.custody.close k t e.world
    (.done, ⟨c, w⟩)
  | .change f => (.done, { e with world := f e.world })

def run (k : Keeper ω) (e : Estate ω) (acts : List (Caller × Act ω)) : Estate ω :=
  acts.foldl (fun e p => (e.step k p.1 p.2).2) e

def Act.recorded : Act ω → Act (ω × List Deed)
  | obtain => .obtain
  | peek => .peek
  | surrender => .surrender
  | requestReclaim => .requestReclaim
  | exit => .exit
  | close => .close
  | change f => .change (Prod.map f id)

def plain (e : Estate (ω × List Deed)) : Estate ω := ⟨e.custody, e.world.1⟩

/-- Writing down changes neither an answer nor the estate. -/
theorem step_recorded (k : Keeper ω) (e : Estate (ω × List Deed)) (t : Caller) (act : Act ω) :
    ((e.step k.recorded t act.recorded).1, (e.step k.recorded t act.recorded).2.plain) =
      e.plain.step k t act := by
  have h := k.over_recorded
  cases act with
  | obtain =>
    simp only [step, plain]
    rw [← Custody.obtain_over h]
    rfl
  | peek =>
    simp only [step, plain]
    rw [← Custody.peek_over h]
    rfl
  | surrender =>
    simp only [step, plain]
    rw [← Custody.surrender_over h]
    rfl
  | requestReclaim =>
    simp only [step, plain]
    rw [← Custody.requestReclaim_over h]
    rfl
  | exit =>
    simp only [step, plain]
    rw [← Custody.exit_over h]
    rfl
  | close =>
    simp only [step, plain]
    rw [← Custody.close_over h]
    rfl
  | change f => rfl

end Estate

end ScopedMethods

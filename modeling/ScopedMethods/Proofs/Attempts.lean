import ScopedMethods.Proofs.Breaks
import ScopedMethods.Proofs.Conservation

/-!
# Attempts

In an arena an entry may be broken off at any task of its plan. A run may have such entries
between its acts, and threads that are cut off; it keeps the arena sound all the same.
-/

set_option autoImplicit false

namespace ScopedMethods.Arena

def enterBy (a : Arena) (t key : Nat) (f : Realm → Store → Except Failure Nat × Realm × Store) :
    Ending × Arena :=
  let (result, a) := a.inRealm t key f
  match result with
  | .error f => (.refused f, a)
  | .ok stack => (.entered, a.setFrames t (⟨key, stack⟩ :: (a.thread t).frames))

def breakOff (a : Arena) (t key : Nat) (types : List TypeId) (n : Nat) (f : Failure) :
    Ending × Arena :=
  a.enterBy t key fun r s => r.breakOff a.catalog (a.caller t) types n f s

/-- An act, or an entry that is broken off at a task of its plan. -/
inductive Attempt where
  | act (act : Act)
  | broken (key : Nat) (types : List TypeId) (n : Nat) (f : Failure)

def Attempt.meant : Attempt → Act
  | .act done => done
  | .broken key types _ _ => .enter key types

def attempt (a : Arena) (t : Nat) : Attempt → Ending × Arena
  | .act act => a.step t act
  | .broken key types n f => (a.withThread t).breakOff t key types n f

def Attempt.entry (key : Nat) (types : List TypeId) : Option (Nat × Failure) → Attempt
  | none => .act (.enter key types)
  | some (n, f) => .broken key types n f

/-- What occurs: a thread attempts something, or it is cut off. -/
inductive Occurrence where
  | attempt (t : Nat) (x : Attempt)
  | cut (t : Nat)

def Occurrence.thread : Occurrence → Nat
  | attempt t _ => t
  | cut t => t

def occur (a : Arena) : Occurrence → Arena
  | .attempt t x => (a.attempt t x).2
  | .cut t => a.cutOff t

def pass (a : Arena) (os : List Occurrence) : Arena := os.foldl occur a

def Tolerates (a : Arena) : Occurrence → Prop
  | .attempt t x => a.Permits t x.meant
  | .cut _ => True

instance (a : Arena) (o : Occurrence) : Decidable (a.Tolerates o) := by
  cases o <;> unfold Tolerates <;> infer_instance

def Regular (a : Arena) : List Occurrence → Prop
  | [] => True
  | o :: rest => a.Tolerates o ∧ Regular (a.occur o) rest

instance decidableRegular (a : Arena) : (os : List Occurrence) → Decidable (a.Regular os)
  | [] => .isTrue trivial
  | o :: rest =>
    have := decidableRegular (a.occur o) rest
    inferInstanceAs (Decidable (a.Tolerates o ∧ Regular (a.occur o) rest))

variable {a : Arena} {t key : Nat} {types : List TypeId}

theorem breakOff_spec (ha : a.Sound a.frames) (types : List TypeId) (n : Nat) (f : Failure)
    (hl : (a.options key).maxDepth = 0 → depthIn key (a.frames t) + 1 < 2 ^ 32) :
    (a.breakOff t key types n f).1 = .refused ((a.outlook t key).broken a.catalog
        (a.options key).maxDepth a.store.traced types n f) ∧
      Step t (.enter key types) a (a.breakOff t key types n f).1
        (a.breakOff t key types n f).2 := by
  obtain ⟨h1, h2, h3, hr⟩ := obtainRealm_spec ha t key
  obtain ⟨hres, hq⟩ := Realm.breakOff_spec (t := a.caller t) (h1.realms hr) a.catalog types n f
    (obtained_room ha t key hl)
  have hoptions : (a.obtainRealm t key).1.options = a.options key := by
    rw [← h3.options, options, hr]
    rfl
  have hout : (a.obtainRealm t key).1.outlook (a.obtainRealm t key).2.store t =
      a.outlook t key := by
    rw [← outlook_some hr, h2.same]
  rw [hoptions, show (a.caller t).thread = t from rfl, hout, h2.shift.store.traced] at hres
  obtain ⟨i1, i2, i3⟩ := inRealm_quiet ha t key hq
  have hresult : (a.inRealm t key fun r s =>
      r.breakOff a.catalog (a.caller t) types n f s).1 = _ := hres
  rw [breakOff, enterBy]
  generalize a.inRealm t key (fun r s => r.breakOff a.catalog (a.caller t) types n f s) = o
    at hresult i1 i2 i3 ⊢
  obtain ⟨result, a₁⟩ := o
  subst hresult
  exact ⟨rfl, step_of_still i1 i2 i3.frames (fun _ => i3.toSettled) rfl (by simp)⟩

theorem broken_spec (ha : a.Sound a.frames) (n : Nat) (f : Failure)
    (hp : a.Permits t (.enter key types)) :
    (a.attempt t (.broken key types n f)).1 = .refused ((a.outlook t key).broken a.catalog
        (a.options key).maxDepth a.store.traced types n f) ∧
      Step t (.enter key types) a (a.attempt t (.broken key types n f)).1
        (a.attempt t (.broken key types n f)).2 := by
  obtain ⟨h1, h2⟩ := still_withThread ha t
  have hf : (a.withThread t).frames = a.frames := funext frames_withThread
  have hroom : ((a.withThread t).options key).maxDepth = 0 →
      depthIn key ((a.withThread t).frames t) + 1 < 2 ^ 32 := by
    rw [hf, options_withThread]
    exact hp
  rw [← hf] at h1
  obtain ⟨hres, hstep⟩ := breakOff_spec h1 types n f hroom
  rw [h2.same, catalog_withThread, options_withThread, store_withThread] at hres
  exact ⟨hres, .after h2 frames_withThread settled_withThread hstep⟩

/-- Whatever is attempted is a step of the act that was meant. -/
theorem attempt_spec (ha : a.Sound a.frames) {x : Attempt} (hp : a.Permits t x.meant) :
    Step t x.meant a (a.attempt t x).1 (a.attempt t x).2 := by
  cases x with
  | act act => exact step_spec ha hp
  | broken key types n f => exact (broken_spec ha n f hp).2

theorem shift_occur (ha : a.Sound a.frames) {o : Occurrence} (hp : a.Tolerates o) :
    Shift o.thread a (a.occur o) := by
  cases o with
  | attempt t x => exact (attempt_spec ha hp).shift
  | cut t => exact (cutOff_spec ha t).2.1

theorem pass_append (a : Arena) (os rest : List Occurrence) :
    a.pass (os ++ rest) = (a.pass os).pass rest :=
  List.foldl_append

theorem sound_occur (ha : a.Sound a.frames) {o : Occurrence} (hp : a.Tolerates o) :
    (a.occur o).Sound (a.occur o).frames := by
  cases o with
  | attempt t x => exact (attempt_spec ha hp).sound
  | cut t => exact (cutOff_spec ha t).1

theorem sound_pass {os : List Occurrence} (ha : a.Sound a.frames) (hl : a.Regular os) :
    (a.pass os).Sound (a.pass os).frames := by
  induction os generalizing a with
  | nil => exact ha
  | cons o os ih => exact ih (sound_occur ha hl.1) hl.2

end ScopedMethods.Arena

import Mathlib.Logic.Function.Basic
import ScopedMethods.Log.Shelf

/-!
# Settings in force

What a verbosity admits is told by the settings that it was given: for a component
by the last one for it since the last reset, or else by the last one for all
components. A copy begins with the settings of what it was made from; from then on
each has settings of its own.
-/

set_option autoImplicit false

namespace ScopedMethods.Log

/-- A setting of a verbosity. One that is made anew counts as reset. -/
inductive Setting where
  | base (s : Severity) (reset : Bool)
  | single (c : Component) (s : Severity)
deriving DecidableEq

namespace Setting

def Latest (P Q : Setting → Prop) (past : List Setting) : Prop :=
  ∃ before x after, past = before ++ x :: after ∧ P x ∧ ∀ y ∈ after, ¬ Q y

def LastBase (past : List Setting) (s : Severity) : Prop :=
  Latest (fun x => ∃ reset, x = .base s reset) (fun x => ∃ s reset, x = .base s reset) past

def LastSingle (past : List Setting) (c : Component) (s : Severity) : Prop :=
  Latest (· = .single c s) (fun x => (∃ s, x = .single c s) ∨ ∃ s, x = .base s true) past

/-- The severity in force for a component, or where there is none. -/
def InForce (past : List Setting) : Option Component → Severity → Prop
  | none, s => LastBase past s
  | some c, s => LastSingle past c s ∨ (∀ s', ¬ LastSingle past c s') ∧ LastBase past s

variable {P Q : Setting → Prop} {past : List Setting} {x : Setting} {s : Severity} {c : Component}

theorem not_latest_nil : ¬ Latest P Q [] := by
  rintro ⟨before, x, after, h, -⟩
  simp at h

theorem latest_snoc : Latest P Q (past ++ [x]) ↔ P x ∨ ¬ Q x ∧ Latest P Q past := by
  constructor
  · rintro ⟨before, y, after, h, hy, hafter⟩
    rcases List.eq_nil_or_concat after with rfl | ⟨front, z, rfl⟩
    · obtain ⟨-, hx⟩ := List.append_inj' h rfl
      exact Or.inl (List.singleton_inj.1 hx ▸ hy)
    · rw [List.concat_eq_append, ← List.cons_append, ← List.append_assoc] at h
      obtain ⟨rfl, hz⟩ := List.append_inj' h rfl
      obtain rfl := List.singleton_inj.1 hz
      refine Or.inr ⟨hafter x (by simp), before, y, front, rfl, hy, fun w hw => ?_⟩
      exact hafter w (by simp [hw])
  · rintro (hx | ⟨hx, before, y, after, rfl, hy, hafter⟩)
    · exact ⟨past, x, [], rfl, hx, by simp⟩
    · refine ⟨before, y, after ++ [x], by simp, hy, fun w hw => ?_⟩
      rcases List.mem_append.1 hw with hw | hw
      · exact hafter w hw
      · rw [List.mem_singleton.1 hw]
        exact hx

theorem lastBase_base (past : List Setting) {s' : Severity} {reset : Bool} :
    LastBase (past ++ [.base s' reset]) s ↔ s' = s := by
  rw [LastBase, latest_snoc]
  constructor
  · rintro (⟨_, h⟩ | ⟨h, -⟩)
    · exact (Setting.base.inj h).1
    · exact absurd ⟨s', reset, rfl⟩ h
  · rintro rfl
    exact Or.inl ⟨reset, rfl⟩

theorem lastBase_single {s' : Severity} :
    LastBase (past ++ [.single c s']) s ↔ LastBase past s := by
  rw [LastBase, latest_snoc]
  simp [LastBase]

theorem lastSingle_base (past : List Setting) {s' : Severity} {reset : Bool} :
    LastSingle (past ++ [.base s' reset]) c s ↔ reset = false ∧ LastSingle past c s := by
  rw [LastSingle, latest_snoc]
  simp [LastSingle]

theorem lastSingle_single {c' : Component} {s' : Severity} :
    LastSingle (past ++ [.single c' s']) c s ↔
      if c' = c then s' = s else LastSingle past c s := by
  rw [LastSingle, latest_snoc]
  by_cases h : c' = c
  · subst h
    simp
  · simp [LastSingle, h]

end Setting

open Setting

/-- A verbosity is what its settings make of it; it knows whether it has overrides. -/
structure Verbosity.Follows (v : Verbosity) (past : List Setting) : Prop where
  base : ∀ s, LastBase past s ↔ v.base = s
  single : ∀ c s, LastSingle past c s ↔ v.overrides.get? c = some s
  overridden : v.overridden = !v.overrides.isEmpty

namespace Verbosity

variable {v : Verbosity} {past : List Setting} {s : Severity} {c : Component}

theorem follows_new (s : Severity) : (new s).Follows [.base s true] where
  base := fun _ => lastBase_base []
  single := by
    intro c s'
    rw [← List.nil_append [Setting.base s true], lastSingle_base]
    simp [new, Slots.get?]
  overridden := rfl

theorem Follows.copy (h : v.Follows past) : v.copy.Follows past :=
  ⟨h.base, h.single, rfl⟩

theorem Follows.setBase (h : v.Follows past) (s : Severity) (reset : Bool) :
    (v.setBase s reset).Follows (past ++ [.base s reset]) := by
  have hbase : (v.setBase s reset).base = s := by
    rw [Verbosity.setBase]
    split <;> rfl
  constructor
  case base =>
    intro s'
    rw [lastBase_base, hbase]
  case single =>
    intro c s'
    rw [lastSingle_base, h.single]
    cases reset with
    | true => simp [Verbosity.setBase, Slots.get?]
    | false => simp [Verbosity.setBase]
  case overridden =>
    cases reset with
    | true => rfl
    | false => exact h.overridden

theorem Follows.setFor (h : v.Follows past) (c : Component) (s : Severity) :
    (v.setFor c s).Follows (past ++ [.single c s]) where
  base := fun s' => lastBase_single.trans (h.base s')
  single := by
    intro k s'
    rw [lastSingle_single, h.single]
    show _ ↔ (v.overrides.set c s).get? k = some s'
    rw [Slots.get?_set]
    split <;> simp
  overridden := by
    show true = !(v.overrides.set c s).isEmpty
    cases v.overrides with
    | nil => rfl
    | cons p rest =>
      rw [Slots.set]
      split <;> rfl

theorem Follows.nameComponents (h : v.Follows past) (table : List (Component × String))
    (before : String) : (v.nameComponents table before).Follows past :=
  ⟨h.base, h.single, h.overridden⟩

/-- The quick answer without a look at the overrides is the one that a look would give. -/
theorem Follows.admits_eq (h : v.Follows past) (sev : Severity) (c : Option Component) :
    v.admits sev c = decide (sev ≤ (c.bind v.overrides.get?).getD v.base) := by
  cases c with
  | none => rfl
  | some c =>
    cases ho : v.overridden with
    | true => simp only [admits, ho, Option.bind_some]
    | false =>
      have hnil : v.overrides = [] := by
        have hflag := h.overridden
        rwa [ho, eq_comm, Bool.not_eq_false', List.isEmpty_iff] at hflag
      simp only [admits, ho, hnil, Option.bind_some, Slots.get?, Option.getD_none]

theorem Follows.inForce (h : v.Follows past) (c : Option Component) :
    ∃ s, (∀ x, InForce past c x ↔ x = s) ∧ ∀ sev, v.admits sev c = true ↔ sev ≤ s := by
  refine ⟨(c.bind v.overrides.get?).getD v.base, fun x => ?_, fun sev => ?_⟩
  · cases c with
    | none => exact (h.base x).trans eq_comm
    | some c =>
      simp only [InForce, h.single, h.base, Option.bind_some]
      cases v.overrides.get? c with
      | none => simp [eq_comm]
      | some s => simp [eq_comm]
  · rw [h.admits_eq, decide_eq_true_iff]

end Verbosity

namespace Shelf

abbrev Record := String → List Setting

def Record.add (past : Record) (slot : String) (x : Setting) : Record :=
  if (past slot).isEmpty then past else Function.update past slot (past slot ++ [x])

def Record.step (past : Record) (slot : String) : ShelfStep → Record
  | .create s => Function.update past slot [.base s true]
  | .copy source =>
    if (past source).isEmpty then past else Function.update past slot (past source)
  | .setBase s reset => past.add slot (.base s reset)
  | .setFor c s => past.add slot (.single c s)
  | _ => past

def record (steps : List (String × ShelfStep)) : Record :=
  steps.foldl (fun past p => past.step p.1 p.2) fun _ => []

def Told (shelf : Shelf) (past : Record) : Prop :=
  ∀ slot, (shelf.get? slot).elim (past slot = []) fun v => v.Follows (past slot)

variable {shelf : Shelf} {past : Record} {slot : String} {v : Verbosity}

theorem Told.follows (h : shelf.Told past) (hv : shelf.get? slot = some v) :
    v.Follows (past slot) := by
  have hs := h slot
  rwa [hv] at hs

theorem Told.isEmpty_iff (h : shelf.Told past) :
    (past slot).isEmpty = true ↔ shelf.get? slot = none := by
  rw [List.isEmpty_iff]
  have hs := h slot
  cases hv : shelf.get? slot with
  | none =>
    rw [hv] at hs
    exact iff_of_true hs rfl
  | some v =>
    rw [hv] at hs
    refine iff_of_false (fun hnil => ?_) (by simp)
    exact not_latest_nil (hnil ▸ (hs.base v.base).2 rfl)

theorem told_set (h : shelf.Told past) {xs : List Setting} (hv : v.Follows xs) :
    Told (shelf.set slot v) (Function.update past slot xs) := by
  intro k
  rw [Slots.get?_set]
  by_cases hk : slot = k
  · subst hk
    rw [if_pos rfl, Function.update_self]
    exact hv
  · rw [if_neg hk, Function.update_of_ne (Ne.symm hk)]
    exact h k

theorem told_change (h : shelf.Told past) {f : Verbosity → Verbosity} {x : Setting}
    (hf : ∀ v xs, v.Follows xs → (f v).Follows (xs ++ [x])) :
    (shelf.change slot f).Told (past.add slot x) := by
  rw [change, Record.add]
  cases hv : shelf.get? slot with
  | none =>
    rw [if_pos (h.isEmpty_iff.2 hv)]
    exact h
  | some v =>
    rw [if_neg fun he => by simp [h.isEmpty_iff.1 he] at hv]
    exact told_set h (hf v _ (h.follows hv))

theorem told_step (h : shelf.Told past) (slot : String) (q : ShelfStep) :
    (shelf.step slot q).2.Told (past.step slot q) := by
  cases q with
  | create s => exact told_set h (Verbosity.follows_new s)
  | copy source =>
    rw [step, Record.step]
    cases hv : shelf.get? source with
    | none =>
      rw [if_pos (h.isEmpty_iff.2 hv)]
      exact h
    | some v =>
      rw [if_neg fun he => by simp [h.isEmpty_iff.1 he] at hv]
      exact told_set h (h.follows hv).copy
  | setBase s reset => exact told_change h fun _ _ hv => hv.setBase s reset
  | setFor c s => exact told_change h fun _ _ hv => hv.setFor c s
  | nameComponents before =>
    rw [step, change]
    cases hv : shelf.get? slot with
    | none => exact h
    | some v =>
      have hs : Told (shelf.set slot _) _ :=
        told_set h ((h.follows hv).nameComponents Component.table before)
      rwa [Function.update_eq_self] at hs
  | base => exact h
  | name c => exact h
  | admits c => exact h

theorem told_run (h : shelf.Told past) (steps : List (String × ShelfStep)) :
    (shelf.run steps).2.Told (steps.foldl (fun past p => past.step p.1 p.2) past) := by
  induction steps generalizing shelf past with
  | nil => exact h
  | cons p steps ih => exact ih (told_step h p.1 p.2)

theorem get?_step_of_ne {q : ShelfStep} {k : String} (hk : k ≠ slot) :
    (shelf.step k q).2.get? slot = shelf.get? slot := by
  have hchange : ∀ f, (shelf.change k f).get? slot = shelf.get? slot := by
    intro f
    rw [change]
    cases shelf.get? k with
    | none => rfl
    | some v => exact Slots.get?_set_ne hk _ _
  cases q with
  | create s => exact Slots.get?_set_ne hk _ _
  | copy source =>
    rw [step]
    cases shelf.get? source with
    | none => rfl
    | some v => exact Slots.get?_set_ne hk _ _
  | setBase s reset => exact hchange _
  | setFor c s => exact hchange _
  | nameComponents before => exact hchange _
  | base => rfl
  | name c => rfl
  | admits c => rfl

theorem get?_run_of_ne {later : List (String × ShelfStep)} (h : ∀ p ∈ later, p.1 ≠ slot) :
    (shelf.run later).2.get? slot = shelf.get? slot := by
  induction later generalizing shelf with
  | nil => rfl
  | cons p later ih =>
    obtain ⟨hp, hrest⟩ := List.forall_mem_cons.1 h
    exact (ih hrest).trans (get?_step_of_ne hp)

/-- After any steps on any slots a verbosity admits, for a component or for none, what
is as grave as the one severity in force by its settings. A copy admits what its source
does, and steps on other slots change nothing about it, nor does a step on the copy
about the source. -/
theorem settings_in_force (steps : List (String × ShelfStep)) (slot : String) :
    let shelf := (Shelf.run [] steps).2
    (∀ v, shelf.get? slot = some v → ∀ c, ∃ s, (∀ x, InForce (record steps slot) c x ↔ x = s) ∧
      ∀ sev, v.admits sev c = true ↔ sev ≤ s) ∧
    (shelf.get? slot = none ↔ record steps slot = []) ∧
    (∀ source v, shelf.get? source = some v →
      ∃ copied, (shelf.step slot (.copy source)).2.get? slot = some copied ∧
        ∀ sev c, copied.admits sev c = v.admits sev c) ∧
    ∀ later : List (String × ShelfStep), (∀ p ∈ later, p.1 ≠ slot) →
      (shelf.run later).2.get? slot = shelf.get? slot := by
  intro shelf
  have hempty : Told [] fun _ => [] := fun _ => rfl
  have h : shelf.Told (record steps) := told_run hempty steps
  refine ⟨fun v hv c => (h.follows hv).inForce c, ?_, fun source v hv => ?_,
    fun later hl => get?_run_of_ne hl⟩
  · rw [← h.isEmpty_iff, List.isEmpty_iff]
  · refine ⟨v.copy, ?_, fun sev c => ?_⟩
    · rw [step, hv]
      exact Slots.get?_set_self _ _ _
    · rw [(h.follows hv).copy.admits_eq, (h.follows hv).admits_eq]
      rfl

def parted : List (String × ShelfStep) :=
  [("c", .create .info), ("c", .setFor .metadata .debug), ("d", .copy "c"),
   ("d", .setBase .warning true), ("c", .setBase .error false)]

theorem settings_parted :
    ∃ v w, (Shelf.run [] parted).2.get? "c" = some v ∧ (Shelf.run [] parted).2.get? "d" = some w ∧
      (∀ sev, v.admits sev (some .metadata) = true ↔ sev ≤ .debug) ∧
      ∀ sev, w.admits sev (some .metadata) = true ↔ sev ≤ .warning := by
  obtain ⟨s, hs, hv⟩ := (settings_in_force parted "c").1 _ rfl (some .metadata)
  obtain ⟨s', hs', hw⟩ := (settings_in_force parted "d").1 _ rfl (some .metadata)
  obtain rfl : Severity.debug = s := (hs _).1 <| Or.inl
    ⟨[.base .info true], .single .metadata .debug, [.base .error false], rfl, rfl, by simp⟩
  obtain rfl : Severity.warning = s' := by
    refine (hs' _).1 <| Or.inr ⟨fun s h => ?_, ?_⟩
    · have h := (lastSingle_base [.base .info true, .single .metadata .debug]).1 h
      cases h.1
    · exact (lastBase_base [.base .info true, .single .metadata .debug]).2 rfl
  exact ⟨_, _, rfl, rfl, hv, hw⟩

end Shelf

end ScopedMethods.Log

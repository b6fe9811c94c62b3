import ScopedMethods.Proofs.Runs

/-!
# Runs and answers

A lawful run keeps an arena sound from its beginning on. In a sound arena the
answers to a thread depend on what the thread sees alone.
-/

set_option autoImplicit false

namespace ScopedMethods.Arena

variable {a : Arena} {t key : Nat}

theorem sound_new (v : Option Log.Verbosity) : (Arena.new v).Sound (Arena.new v).frames where
  realms := fun h => nomatch h
  apart := fun _ h => nomatch h
  framed := fun h => nomatch h
  depth := fun _ _ => rfl

theorem sound_run {acts : List (Nat × Act)} (ha : a.Sound a.frames) (hl : a.Lawful acts) :
    (a.run acts).Sound (a.run acts).frames := by
  induction acts generalizing a with
  | nil => exact ha
  | cons p acts ih => exact ih (step_spec ha hl.1).sound hl.2

theorem chain_of_outlook {F : Nat → List Frame} (ha : a.Sound F) {name : String}
    {p : ChainId × Chain} (hp : p ∈ (a.outlook t key).lineage name) :
    a.store.chain p.1 = p.2 ∧ p.1.number < a.store.chains.size := by
  cases hr : a.realm? key with
  | none =>
    rw [outlook_none hr] at hp
    cases hp
  | some r =>
    rw [outlook_some hr] at hp
    exact (ha.realms hr).chain_of_outlook hp

/-- What is asked of a realm is answered out of the outlook and the open scopes. -/
theorem answer_eq {α : Type} (ha : a.Sound a.frames) (t key : Nat)
    (f : Realm → Store → α × Realm × Store) :
    ∃ r s, r.Sound s ∧ r.outlook s t = a.outlook t key ∧ r.openScopes = a.openScopes key ∧
      ((a.withThread t).inRealm t key f).1 = (f r s).1 := by
  obtain ⟨h1, h2⟩ := still_withThread ha t
  obtain ⟨h3, h4, -, hr⟩ := obtainRealm_spec h1 t key
  have hstill := h2.trans h4
  refine ⟨_, _, h3.realms hr, ?_, ?_, rfl⟩
  · rw [← outlook_some hr, hstill.same]
  · have h := hstill.shift.openScopes key
    rw [hstill.same, openScopes, hr] at h
    exact Nat.add_right_cancel h

theorem lookup_answer (ha : a.Sound a.frames) (t key : Nat) (name : String) :
    (a.step t (.lookup key name)).1 = .chain ((a.outlook t key).lineage name).ids.head? := by
  obtain ⟨r, s, hr, ho, -, he⟩ :=
    answer_eq ha t key fun r s => r.lookup ((a.withThread t).caller t) name s
  rw [← ho]
  exact congrArg Ending.chain (he.trans (Realm.lookup_spec hr _ name).2)

theorem level_answer (ha : a.Sound a.frames) (t key : Nat) :
    (a.step t (.currentLevel key)).1 = .level (a.outlook t key).level := by
  obtain ⟨r, s, hr, ho, -, he⟩ :=
    answer_eq ha t key fun r s => r.currentLevel ((a.withThread t).caller t) s
  rw [← ho]
  exact congrArg Ending.level (he.trans (Realm.currentLevel_spec hr _).2)

theorem flag_answer (ha : a.Sound a.frames) (t key : Nat) (hb : a.openScopes key < 2 ^ 64) :
    (a.step t (.activeHere key)).1 = .flag ((a.outlook t key).level != 0) := by
  obtain ⟨r, s, hr, ho, hn, he⟩ :=
    answer_eq ha t key fun r s => r.activeHere ((a.withThread t).caller t) s
  rw [← ho]
  exact congrArg Ending.flag (he.trans ((Realm.activeHere_spec hr _).2 (by rw [hn]; exact hb)))

def verdict (a : Arena) (t key : Nat) (types : List TypeId) : Except Failure Unit :=
  (a.outlook t key).verdict a.catalog (a.options key).maxDepth a.store.traced types

theorem enter_answer (ha : a.Sound a.frames) (types : List TypeId)
    (hl : (a.options key).maxDepth = 0 → depthIn key (a.frames t) + 1 < 2 ^ 32) :
    (a.step t (.enter key types)).1 =
      match a.verdict t key types with
      | .error f => .refused f
      | .ok () => .entered := by
  obtain ⟨h1, h2⟩ := still_withThread ha t
  have he := entry_spec h1 (a.withThread t).catalog t key ((a.withThread t).thread t).nickname
    types (by rw [options_withThread]; exact hl)
  have hv := he.verdict
  rw [h2.same, options_withThread, catalog_withThread, store_withThread] at hv
  rw [verdict, ← hv]
  show (Arena.enter (a.withThread t) t key types).1 = _
  rw [enter]
  simp only [caller]
  rw [catalog_withThread]
  generalize (a.withThread t).inRealm t key (fun r s => r.enter a.catalog _ types s) = o
  obtain ⟨result, a₁⟩ := o
  cases result <;> rfl

def usageCount (a : Arena) (key : Nat) (name : String) : Int32 :=
  (a.realm? key).elim 0 fun r => r.usageCount a.store name

def active (a : Arena) (key : Nat) : UInt64 := (a.realm? key).elim 0 fun r => r.ledger.active

theorem usageCount_eq {F : Nat → List Frame} (ha : a.Sound F) (key : Nat) (name : String) :
    a.usageCount key name = Int32.ofNat (a.inEffect key name) := by
  rw [usageCount, inEffect]
  cases hr : a.realm? key with
  | none => rfl
  | some r => exact (ha.realms hr).counted name

theorem active_eq {F : Nat → List Frame} (ha : a.Sound F) (key : Nat) :
    a.active key = UInt64.ofNat (a.openScopes key) := by
  rw [active, openScopes]
  cases hr : a.realm? key with
  | none => rfl
  | some r => exact (ha.realms hr).active

/-- The flag is answered out of the tally and the level, whether or not the tally wrapped. -/
theorem flag_answer_eq (ha : a.Sound a.frames) (t key : Nat) :
    (a.step t (.activeHere key)).1 =
      .flag (a.active key != 0 && (a.outlook t key).level != 0) := by
  obtain ⟨r, s, hr, ho, hn, he⟩ :=
    answer_eq ha t key fun r s => r.activeHere ((a.withThread t).caller t) s
  rw [active_eq ha, ← hn, ← hr.active, ← ho]
  exact congrArg Ending.flag (he.trans (Realm.activeHere_eq hr _))

end ScopedMethods.Arena

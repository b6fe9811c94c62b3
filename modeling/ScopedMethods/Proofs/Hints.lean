import ScopedMethods.Proofs.Reference
import ScopedMethods.Proofs.Conservation

/-!
# Hints

What a realm tells without a look at any stack, from its tally and its counts,
against what its threads see. A scope makes a chain only to put a candidate in
it, so a chain that is seen is never empty, and a count that is zero says that no
thread would find one.
-/

set_option autoImplicit false

namespace ScopedMethods

namespace Ladder

def Filled (l : Ladder) : Prop := ∀ r ∈ l, r.2 ≠ []

variable {l : Ladder}

theorem filled_add (h : l.Filled) (tree : TypeTree) (level : Level) (new : Candidate) :
    (l.add tree level new).Filled := by
  have hins : ∀ es, tree.insert new es ≠ [] := by
    intro es he
    have hlen := TypeTree.length_insert tree new es
    rw [he] at hlen
    cases hlen
  cases l with
  | nil =>
    intro r hr
    rw [List.mem_singleton.1 hr]
    exact hins []
  | cons q below =>
    have hbelow : ∀ r ∈ below, r.2 ≠ [] := fun r hr => h r (List.mem_cons_of_mem _ hr)
    simp only [add]
    split
    · exact List.forall_mem_cons.2 ⟨hins _, hbelow⟩
    · exact List.forall_mem_cons.2 ⟨hins _, h⟩

theorem filled_grown (h : l.Filled) (tree : TypeTree) (level : Level) (ms : List Method)
    (name : String) : (Site.grown tree level ms name l).Filled := by
  rw [Site.grown]
  induction ms.filter (·.name = name) generalizing l with
  | nil => exact h
  | cons m ms ih => exact ih (filled_add h tree level _)

end Ladder

namespace Outlook

def Filled (o : Outlook) : Prop := ∀ name, (o.lineage name).ladder.Filled

variable {o o' : Outlook}

theorem filled_idle : idle.Filled := fun _ _ hr => by cases hr

theorem Filled.leave (h : o.Filled) : o.leave.Filled := by
  intro name r hr
  exact h name r (((Lineage.popped_sublist o.level (o.lineage name)).map _).subset hr)

theorem Filled.leaves (h : o.Filled) (n : Nat) : (Outlook.leave^[n] o).Filled := by
  induction n generalizing o with
  | zero => exact h
  | succ n ih => exact ih h.leave

theorem Filled.overlay (h : o.Filled) {tree : TypeTree} {types : List TypeId}
    (ho : o.Over tree types o') : o'.Filled := by
  intro name
  rw [ho.ladder]
  exact Ladder.filled_grown (h name) tree _ _ name

theorem Filled.weight_pos (h : o.Filled) (name : String) :
    0 < o.weight name ↔ o.lineage name ≠ [] := by
  rw [weight]
  cases hl : o.lineage name with
  | nil => simp [Lineage.entries]
  | cons p below =>
    have hp := h name (p.2.level, p.2.entries) (by rw [hl]; exact List.mem_cons_self)
    exact iff_of_true (List.length_pos_of_ne_nil hp) (List.cons_ne_nil _ _)

end Outlook

namespace Realm

variable {r : Realm} {s : Store}

theorem openScopes_pos (hr : r.Sound s) :
    0 < r.openScopes ↔ ∃ u, (r.outlook s u).level ≠ 0 := by
  constructor
  · intro h
    obtain ⟨p, hp, hpos⟩ := Slots.total_pos h
    obtain ⟨u, -, ho⟩ := hr.holder (Slots.get?_of_mem hr.table hp)
    refine ⟨u, fun h0 => ?_⟩
    rw [ho] at h0
    have hz : p.2.level = 0 := h0
    rw [hz] at hpos
    exact absurd hpos (Nat.lt_irrefl _)
  · rintro ⟨u, hu⟩
    have hpos : 0 < (r.outlook s u).level.toNat :=
      Nat.pos_of_ne_zero fun h => hu (UInt32.toNat_inj.1 h)
    exact hpos.trans_le (level_le_openScopes hr u)

theorem weight_le_inEffect (hr : r.Sound s) (u : Nat) (name : String) :
    (r.outlook s u).weight name ≤ r.inEffect s name := by
  cases hid : r.custody.held? u with
  | none =>
    rw [outlook_none hid]
    exact Nat.zero_le _
  | some id =>
    obtain ⟨st, hst⟩ := hr.stack_of_held hid
    have hle := Slots.le_total (f := fun x : ScopeStack => x.mapped s name) hst
    rw [ScopeStack.mapped_eq] at hle
    rw [outlook_some hid hst]
    exact hle

theorem inEffect_pos (hr : r.Sound s) (name : String) :
    0 < r.inEffect s name ↔ ∃ u, 0 < (r.outlook s u).weight name := by
  constructor
  · intro h
    have ht : 0 < Slots.total (fun st : ScopeStack => st.mapped s name) r.stackTable := h
    obtain ⟨p, hp, hpos⟩ := Slots.total_pos ht
    obtain ⟨u, -, ho⟩ := hr.holder (Slots.get?_of_mem hr.table hp)
    refine ⟨u, ?_⟩
    rw [ScopeStack.mapped_eq] at hpos
    rw [ho]
    exact hpos
  · rintro ⟨u, hu⟩
    exact hu.trans_le (weight_le_inEffect hr u name)

end Realm

namespace Arena

variable {a : Arena} {F : Nat → List Frame} {t key : Nat}

theorem openScopes_pos (ha : a.Sound F) (key : Nat) :
    0 < a.openScopes key ↔ ∃ u, (a.outlook u key).level ≠ 0 := by
  cases hr : a.realm? key with
  | none =>
    simp only [openScopes, outlook, hr]
    refine iff_of_false (Nat.lt_irrefl _) ?_
    rintro ⟨_, h⟩
    exact h rfl
  | some r =>
    simp only [openScopes, outlook, hr]
    exact Realm.openScopes_pos (ha.realms hr)

theorem inEffect_pos (ha : a.Sound F) (key : Nat) (name : String) :
    0 < a.inEffect key name ↔ ∃ u, 0 < (a.outlook u key).weight name := by
  cases hr : a.realm? key with
  | none =>
    simp only [inEffect, outlook, hr]
    refine iff_of_false (Nat.lt_irrefl _) ?_
    rintro ⟨_, h⟩
    exact absurd h (Nat.lt_irrefl _)
  | some r =>
    simp only [inEffect, outlook, hr]
    exact Realm.inEffect_pos (ha.realms hr) name

def Filled (a : Arena) : Prop := ∀ t key, (a.outlook t key).Filled

theorem filled_happen (ha : a.Sound a.frames) (hf : a.Filled) {h : Happening} (hp : a.Admits h) :
    (a.happen h).Filled := by
  intro u k
  cases h with
  | act t act =>
    have hs := step_spec ha hp
    by_cases hu : u = t
    · subst hu
      rcases hs.change with ⟨key, types, id, -, -, -, hover, hk⟩ | ⟨-, -, hk⟩
      · by_cases he : k = key
        · rw [he]
          exact (hf u key).overlay hover
        · exact (hk k he).symm ▸ hf u k
      · exact (hk k).symm ▸ (hf u k).leaves _
    · exact (hs.shift.others hu k).symm ▸ hf u k
  | cut t =>
    obtain ⟨hs, hshift, -, hframes⟩ := cutOff_spec ha t
    by_cases hu : u = t
    · subst hu
      have hnil : (a.cutOff u).frames u = [] := by
        rw [hframes]
        exact Function.update_self _ _ _
      exact (hs.outside hnil k).symm ▸ Outlook.filled_idle
    · exact (hshift.others hu k).symm ▸ hf u k

theorem filled_through {hs : List Happening} (ha : a.Sound a.frames) (hf : a.Filled)
    (hl : a.Orderly hs) : (a.through hs).Filled := by
  induction hs generalizing a with
  | nil => exact hf
  | cons h hs ih => exact ih (sound_happen ha hl.1) (filled_happen ha hf hl.1) hl.2

theorem mem_threads (h : 0 < depthIn key (a.frames t)) : t ∈ a.threads.keys := by
  cases ht : a.threads.get? t with
  | none =>
    rw [frames, thread, ht] at h
    exact absurd h (Nat.lt_irrefl _)
  | some x => exact Slots.mem_keys_of_get? ht

theorem obtained_counts (ha : a.Sound F) (t key : Nat) :
    (a.obtainRealm t key).1.ledger.active = UInt64.ofNat (a.openScopes key) ∧
      ∀ name, (a.obtainRealm t key).1.usageCount (a.obtainRealm t key).2.store name =
        Int32.ofNat (a.inEffect key name) := by
  obtain ⟨h1, h2, -, hr⟩ := obtainRealm_spec ha t key
  have hs := h1.realms hr
  have hopen : (a.obtainRealm t key).1.openScopes = a.openScopes key := by
    have h := h2.shift.openScopes key
    rw [h2.same, openScopes, hr] at h
    exact Nat.add_right_cancel h
  have heff : ∀ name, (a.obtainRealm t key).1.inEffect (a.obtainRealm t key).2.store name =
      a.inEffect key name := by
    intro name
    have h := h2.shift.inEffect key name
    rw [h2.same, inEffect, hr] at h
    exact Nat.add_right_cancel h
  exact ⟨by rw [hs.active, hopen], fun name => by rw [hs.counted, heff]⟩

/-- What the hints of a realm say, and that whoever goes by them misses nothing. -/
structure Hinted (a : Arena) (key : Nat) : Prop where
  here : a.openScopes key < 2 ^ 64 → ∀ t, ∃ n, (a.step t (.currentLevel key)).1 = .level n ∧
    (a.step t (.activeHere key)).1 = .flag (n != 0)
  anywhere : a.openScopes key < 2 ^ 64 → ∀ t, (a.obtainRealm t key).1.activeAnywhere = true ↔
    ∃ u ∈ a.threads.keys, ∃ n, (a.step u (.currentLevel key)).1 = .level n ∧ n ≠ 0
  usage : ∀ name, a.inEffect key name < 2 ^ 31 → ∀ t,
    0 < (a.obtainRealm t key).1.usageCount (a.obtainRealm t key).2.store name ↔
      ∃ u, 0 < depthIn key (a.frames u) ∧
        ∃ id, (a.step u (.lookup key name)).1 = .chain (some id)
  nothing : a.openScopes key < 2 ^ 64 → ∀ name, a.inEffect key name < 2 ^ 31 → ∀ t u,
    (a.step u (.activeHere key)).1 = .flag false ∨ (a.obtainRealm t key).1.activeAnywhere = false ∨
      (a.obtainRealm t key).1.usageCount (a.obtainRealm t key).2.store name ≤ 0 →
    (a.step u (.lookup key name)).1 = .chain none

theorem level_pos (ha : a.Sound a.frames) (t key : Nat) :
    (a.outlook t key).level ≠ 0 ↔ 0 < depthIn key (a.frames t) := by
  rw [← ha.depth, Nat.pos_iff_ne_zero]
  exact not_congr UInt32.toNat_inj.symm

theorem activeAnywhere_iff (ha : a.Sound F) (hb : a.openScopes key < 2 ^ 64) (t : Nat) :
    (a.obtainRealm t key).1.activeAnywhere = true ↔ ∃ u, (a.outlook u key).level ≠ 0 := by
  rw [Realm.activeAnywhere, bne_iff_ne, (obtained_counts ha t key).1, ← openScopes_pos ha,
    Nat.pos_iff_ne_zero, ne_eq, ne_eq, ← UInt64.toNat_inj, UInt64.toNat_ofNat_of_lt' hb]
  rfl

theorem usageCount_pos (ha : a.Sound F) {name : String} (hb : a.inEffect key name < 2 ^ 31)
    (t : Nat) :
    0 < (a.obtainRealm t key).1.usageCount (a.obtainRealm t key).2.store name ↔
      ∃ u, 0 < (a.outlook u key).weight name := by
  rw [(obtained_counts ha t key).2, ← inEffect_pos ha, Int32.lt_iff_toInt_lt,
    Int32.toInt_ofNat_of_lt hb, Int32.toInt_zero]
  omega

theorem lookup_some_iff (ha : a.Sound a.frames) (hf : a.Filled) (t key : Nat) (name : String) :
    (∃ id, (a.step t (.lookup key name)).1 = .chain (some id)) ↔
      0 < (a.outlook t key).weight name := by
  rw [lookup_answer ha, (hf t key).weight_pos]
  cases (a.outlook t key).lineage name <;> simp [Lineage.ids]

theorem lookup_none (ha : a.Sound a.frames) (hf : a.Filled) {name : String}
    (h : (a.outlook t key).weight name = 0) : (a.step t (.lookup key name)).1 = .chain none := by
  have hnil : (a.outlook t key).lineage name = [] := by
    by_contra hne
    exact absurd h (Nat.ne_of_gt (((hf t key).weight_pos name).2 hne))
  rw [lookup_answer ha, hnil]
  rfl

theorem weight_idle (ha : a.Sound F) (h : (a.outlook t key).level = 0) (name : String) :
    (a.outlook t key).weight name = 0 := by
  rw [ha.idle h]
  rfl

/-- The hints of every realm agree with what its threads see, in every state of every run. -/
theorem hints_sound (v : Option Log.Verbosity) (hs : List Happening)
    (hl : (Arena.new v).Orderly hs) (key : Nat) : ((Arena.new v).through hs).Hinted key := by
  have ha := sound_through (sound_new v) hl
  have hf : ((Arena.new v).through hs).Filled :=
    filled_through (sound_new v) (fun _ _ => Outlook.filled_idle) hl
  generalize (Arena.new v).through hs = a at ha hf
  constructor
  case here => exact fun hb t => ⟨_, level_answer ha t key, flag_answer ha t key hb⟩
  case anywhere =>
    intro hb t
    rw [activeAnywhere_iff ha hb]
    constructor
    · rintro ⟨u, hu⟩
      exact ⟨u, mem_threads ((level_pos ha u key).1 hu), _, level_answer ha u key, hu⟩
    · rintro ⟨u, -, n, hn, h0⟩
      rw [level_answer ha] at hn
      exact ⟨u, by rwa [Ending.level.inj hn]⟩
  case usage =>
    intro name hb t
    rw [usageCount_pos ha hb]
    refine exists_congr fun u => ?_
    rw [lookup_some_iff ha hf, ← level_pos ha]
    refine ⟨fun h => ⟨fun h0 => ?_, h⟩, And.right⟩
    exact absurd (weight_idle ha h0 name) (Nat.ne_of_gt h)
  case nothing =>
    intro hb name hn t u h
    apply lookup_none ha hf
    rcases h with h | h | h
    · rw [flag_answer ha u key hb, Ending.flag.injEq, bne_eq_false_iff_eq] at h
      exact weight_idle ha h name
    · by_contra hw
      have hlevel : (a.outlook u key).level ≠ 0 := fun h0 => hw (weight_idle ha h0 name)
      rw [(activeAnywhere_iff ha hb t).2 ⟨u, hlevel⟩] at h
      cases h
    · by_contra hw
      exact absurd ((usageCount_pos ha hn t).2 ⟨u, Nat.pos_of_ne_zero hw⟩) (Int32.not_lt.2 h)

def besideScope : List Happening :=
  [.act 0 (.register "Base" ⟨0⟩), .act 0 (.register "Derived" ⟨1⟩),
   .act 0 (.declare ⟨1⟩ ⟨"f", [⟨1⟩], true, true, none⟩), .act 0 (.setFault .methods ⟨2⟩ true),
   .act 0 (.enter 0 [⟨2⟩]), .act 0 (.enter 0 [⟨1⟩]), .act 1 (.lookup 0 "g")]

theorem hints_besideScope :
    let a := (Arena.new none).through besideScope
    (∃ u, 0 < depthIn 0 (a.frames u) ∧ ∃ id, (a.step u (.lookup 0 "f")).1 = .chain (some id)) ∧
      (a.step 1 (.lookup 0 "f")).1 = .chain none ∧ (a.step 0 (.lookup 0 "g")).1 = .chain none := by
  intro a
  have h := hints_sound none besideScope (by decide +kernel) 0
  have hopen : a.openScopes 0 < 2 ^ 64 := by decide +kernel
  have hflag : (a.step 1 (.activeHere 0)).1 = .flag false := by
    have ha : a.Sound a.frames := sound_through (sound_new none) (by decide +kernel)
    rw [flag_answer ha 1 0 hopen]
    exact congrArg Ending.flag (by decide +kernel)
  refine ⟨(h.usage "f" (by decide +kernel) 1).1 (by decide +kernel), ?_, ?_⟩
  · exact h.nothing hopen "f" (by decide +kernel) 1 1 (Or.inl hflag)
  · exact h.nothing hopen "g" (by decide +kernel) 1 0 (Or.inr (Or.inr (by decide +kernel)))

end Arena

end ScopedMethods

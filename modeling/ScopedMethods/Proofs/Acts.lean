import Mathlib.Logic.Function.Iterate
import ScopedMethods.Proofs.Arena

/-!
# Acts on realms

What each act on a realm does to a sound arena: realms are made and destroyed
unseen, questions leave all outlooks alone, an entry lays a scope over one
outlook and leaving takes it off.
-/

set_option autoImplicit false

namespace ScopedMethods.Arena

variable {a a' a₁ : Arena} {F : Nat → List Frame} {t u key : Nat} {r : Realm} {s : Store}

structure Settled (a a' : Arena) : Prop where
  catalog : a'.catalog = a.catalog
  options : ∀ key, a'.options key = a.options key

structure Steady (a a' : Arena) : Prop extends Settled a a' where
  threads : a'.threads = a.threads

theorem Settled.refl (a : Arena) : Settled a a := ⟨rfl, fun _ => rfl⟩

theorem Settled.trans (h : Settled a a₁) (h' : Settled a₁ a') : Settled a a' :=
  ⟨h'.catalog.trans h.catalog, fun key => (h'.options key).trans (h.options key)⟩

theorem Steady.refl (a : Arena) : Steady a a := ⟨.refl a, rfl⟩

theorem Steady.trans (h : Steady a a₁) (h' : Steady a₁ a') : Steady a a' :=
  ⟨h.toSettled.trans h'.toSettled, h'.threads.trans h.threads⟩

theorem Steady.frames (h : Steady a a') (t : Nat) : a'.frames t = a.frames t := by
  rw [Arena.frames, Arena.frames, thread, thread, h.threads]

theorem steady_setRealm (hr : a.realm? key = some r) {r' : Realm} (ho : r'.options = r.options)
    (s' : Store) : Steady a (a.setRealm key r' s') := by
  refine ⟨⟨rfl, fun k => ?_⟩, rfl⟩
  rw [options, options, realm?_setRealm]
  split
  · rename_i he
    rw [← he, hr]
    exact ho
  · rfl

theorem depthIn_cons (key : Nat) (f : Frame) (fs : List Frame) :
    depthIn key (f :: fs) = depthIn key fs + if f.realm = key then 1 else 0 := by
  simp [depthIn, List.countP_cons]

theorem depthIn_pos {f : Frame} {fs : List Frame} (hf : f ∈ fs) : 0 < depthIn f.realm fs :=
  List.countP_pos_iff.2 ⟨f, hf, by simp⟩

/-- A realm stays, or no thread is in it and it goes or gives way to a new one. -/
def Succeeds (F : Nat → List Frame) (key : Nat) (old new : Option Realm) : Prop :=
  new = old ∨ (∀ u, depthIn key (F u) = 0) ∧ ∀ r ∈ new, ∃ id o, r = Realm.new id o

theorem Sound.deserted (ha : a.Sound F) (h0 : ∀ u, depthIn key (F u) = 0) :
    (∀ u, a.outlook u key = Outlook.idle) ∧ (∀ name, a.inEffect key name = 0) ∧
      a.openScopes key = 0 := by
  have hidle : ∀ u, a.outlook u key = Outlook.idle := by
    intro u
    apply ha.idle
    have hd := ha.depth u key
    rw [h0 u] at hd
    exact UInt32.toNat_inj.1 hd
  refine ⟨hidle, ?_⟩
  cases hr : a.realm? key with
  | none => exact ⟨fun _ => by rw [inEffect, hr]; rfl, by rw [openScopes, hr]; rfl⟩
  | some r =>
    have hq := ha.realms hr
    have hlevel : ∀ p ∈ r.stackTable, p.2.level = 0 := by
      intro p hp
      have hst : r.stack? p.1 = some p.2 := Slots.get?_of_mem hq.table hp
      obtain ⟨u, -, hu⟩ := hq.holder hst
      have ho := hidle u
      rw [outlook_some hr, hu] at ho
      exact congrArg Outlook.level ho
    obtain ⟨h1, h2⟩ := hq.bench.resting hlevel
    constructor
    · intro name
      rw [inEffect, hr]
      exact h1 name
    · rw [openScopes, hr]
      exact h2

theorem Succeeds.reads {b : Arena} (h : Succeeds F key (a.realm? key) (b.realm? key))
    (ha : a.Sound F) (hs : a.store.Same b.store) :
    (∀ u, b.outlook u key = a.outlook u key) ∧
      (∀ name, b.inEffect key name = a.inEffect key name) ∧
        b.openScopes key = a.openScopes key := by
  rcases h with he | ⟨h0, hn⟩
  · refine ⟨fun u => ?_, fun name => ?_, by rw [openScopes, openScopes, he]⟩
    · rw [outlook, outlook, he]
      cases hr : a.realm? key with
      | none => rfl
      | some r => exact (ha.realms hr).outlook_keeps hs.keeps rfl fun _ _ => rfl
    · rw [inEffect, inEffect, he]
      cases hr : a.realm? key with
      | none => rfl
      | some r => exact (ha.realms hr).inEffect_keeps hs.keeps name
  -- Nothing was to be seen in the realm that goes, nor is there in a new one.
  · obtain ⟨h1, h2, h3⟩ := ha.deserted h0
    simp only [h1, h2, h3]
    simp only [outlook, inEffect, openScopes]
    cases hk : b.realm? key with
    | none => exact ⟨fun _ => rfl, fun _ => rfl, rfl⟩
    | some r =>
      obtain ⟨id, o, rfl⟩ := hn r hk
      exact ⟨fun _ => rfl, fun _ => rfl, rfl⟩

theorem Succeeds.of_counter {before : Option Realm} {name : String} {c : CounterId}
    (h : Succeeds F key before (some r)) (hc : r.ledger.counters.get? name = some c) :
    before = some r := by
  rcases h with he | ⟨-, hn⟩
  · exact he.symm
  · obtain ⟨id, o, rfl⟩ := hn r rfl
    cases hc

theorem sound_same {b : Arena} (ha : a.Sound F) (hs : a.store.Same b.store)
    (hr : ∀ k, Succeeds F k (a.realm? k) (b.realm? k)) : b.Sound F where
  realms := by
    intro k r h
    rcases hr k with he | ⟨-, hn⟩
    · rw [he] at h
      exact (ha.realms h).elsewhere hs.keeps (le_of_eq (by rw [hs.counters]))
        fun _ => hs.counter _
    · obtain ⟨id, o, rfl⟩ := hn r h
      exact Realm.sound_new id o _
  apart := by
    intro i j r q hij hi hj n m c hc hc'
    have ei := (hi ▸ hr i).of_counter hc
    have ej := (hj ▸ hr j).of_counter hc'
    exact ha.apart hij ei ej hc hc'
  framed := by
    intro u f hf
    obtain ⟨r, hk, hid⟩ := ha.framed hf
    refine ⟨r, ?_, hid⟩
    rcases hr f.realm with he | ⟨h0, -⟩
    · rw [he, hk]
    · exact absurd (h0 u) (Nat.ne_of_gt (depthIn_pos hf))
  depth := by
    intro u k
    rw [((hr k).reads ha hs).1, ha.depth]

theorem books_same {b : Arena} (hs : a.store.Same b.store)
    (hr : ∀ k, Succeeds F k (a.realm? k) (b.realm? k)) : Books a b where
  size := le_of_eq (by rw [hs.counters])
  spare := fun _ _ => hs.counter _
  fresh := by
    intro key n k hn
    left
    cases hb : b.realm? key with
    | none =>
      rw [counter?_none hb] at hn
      cases hn
    | some r =>
      rw [counter?_some hb] at hn
      rw [counter?_some ((hb ▸ hr key).of_counter hn)]
      exact hn

theorem still_same {b : Arena} (ha : a.Sound F) (hs : a.store.Same b.store)
    (hr : ∀ k, Succeeds F k (a.realm? k) (b.realm? k)) (t : Nat) :
    b.Sound F ∧ Still t a b := by
  have hreads := fun k => (hr k).reads ha hs
  have hout : ∀ u k, b.outlook u k = a.outlook u k := fun u k => (hreads k).1 u
  refine ⟨sound_same ha hs hr, ⟨hs.keeps, books_same hs hr, fun _ => hout _, ?_, ?_⟩, hout t⟩
  · intro k name
    rw [hout, (hreads k).2.1]
  · intro k
    rw [hout, (hreads k).2.2]

theorem still_of_realms {b : Arena} (ha : a.Sound F) (hs : a.store.Same b.store)
    (hr : b.realms = a.realms)
    (t : Nat) : b.Sound F ∧ Still t a b :=
  still_same ha hs (fun _ => Or.inl (by rw [realm?, realm?, hr])) t

theorem same_create (id : Nat) (o : Options) (t : Caller) (s : Store) :
    s.Same (Realm.create id o t s).2 :=
  ((Store.Same.refl s).note t (.custodyCreated ⟨"scope_stacks", id, "ScopeStack"⟩)).note t
    (.realmCreated id o.text)

theorem succeeds_obtainRealm (ha : a.Sound F) (t key : Nat) :
    a.store.Same (a.obtainRealm t key).2.store ∧
      ∀ k, Succeeds F k (a.realm? k) ((a.obtainRealm t key).2.realm? k) := by
  unfold obtainRealm
  cases hr : a.realm? key with
  | some r => exact ⟨.refl _, fun _ => Or.inl rfl⟩
  | none =>
    refine ⟨same_create key {} (a.caller t) a.store, fun k => ?_⟩
    show Succeeds F k (a.realm? k) ((a.setRealm key (Realm.new key {}) _).realm? k)
    rw [realm?_setRealm]
    split
    · rename_i he
      subst he
      refine Or.inr ⟨fun u => ?_, fun r hm => ⟨key, {}, (Option.some.inj hm).symm⟩⟩
      rw [← ha.depth, outlook_none hr]
      rfl
    · exact Or.inl rfl

/-- A realm is there, or is made now, and nobody sees a difference. -/
theorem obtainRealm_spec (ha : a.Sound F) (t key : Nat) :
    (a.obtainRealm t key).2.Sound F ∧ Still t a (a.obtainRealm t key).2 ∧
      Steady a (a.obtainRealm t key).2 ∧
      (a.obtainRealm t key).2.realm? key = some (a.obtainRealm t key).1 := by
  obtain ⟨hs, hk⟩ := succeeds_obtainRealm ha t key
  obtain ⟨h1, h2⟩ := still_same ha hs hk t
  refine ⟨h1, h2, ?_⟩
  unfold obtainRealm
  cases hr : a.realm? key with
  | some r => exact ⟨.refl a, hr⟩
  | none =>
    refine ⟨⟨⟨rfl, fun k => ?_⟩, rfl⟩, (realm?_setRealm key).trans (if_pos rfl)⟩
    rw [options, options]
    show ((a.setRealm key (Realm.new key {}) _).realm? k).elim _ _ = _
    rw [realm?_setRealm]
    split
    · rename_i he
      rw [← he, hr]
      rfl
    · rfl

theorem obtained_depth (ha : a.Sound F) (t key : Nat) :
    (a.obtainRealm t key).1.options = a.options key ∧
      ((a.obtainRealm t key).1.outlook (a.obtainRealm t key).2.store t).level.toNat =
        depthIn key (F t) := by
  obtain ⟨h1, -, h3, hr⟩ := obtainRealm_spec ha t key
  refine ⟨?_, by rw [← outlook_some hr, h1.depth]⟩
  rw [← h3.options, options, hr]
  rfl

theorem obtained_room (ha : a.Sound F) (t key : Nat)
    (hl : (a.options key).maxDepth = 0 → depthIn key (F t) + 1 < 2 ^ 32) :
    (a.obtainRealm t key).1.options.maxDepth = 0 →
      ((a.obtainRealm t key).1.outlook (a.obtainRealm t key).2.store t).level.toNat + 1 <
        2 ^ 32 := by
  obtain ⟨hoptions, hdepth⟩ := obtained_depth ha t key
  rw [hoptions, hdepth]
  exact hl

theorem same_destroyRealm (ha : a.Sound F) (h0 : ∀ u, depthIn key (F u) = 0) (t : Nat) :
    a.store.Same (a.destroyRealm t key).store := by
  rw [destroyRealm]
  cases hr : a.realm? key with
  | none => exact .refl _
  | some r =>
    have hlevel : ∀ u, (r.outlook a.store u).level = 0 := by
      intro u
      rw [← outlook_some hr, (ha.deserted h0).1]
      rfl
    exact Realm.destroy_spec (ha.realms hr) hlevel (a.caller t)

theorem realm?_destroyRealm (k : Nat) :
    (a.destroyRealm t key).realm? k = if key = k then none else a.realm? k := by
  rw [destroyRealm]
  cases hr : a.realm? key with
  | none =>
    show a.realm? k = _
    split
    · rename_i hk
      rw [← hk, hr]
    · rfl
  | some r => exact Slots.get?_erase key k _

theorem succeeds_destroyRealm (h0 : ∀ u, depthIn key (F u) = 0) (t k : Nat) :
    Succeeds F k (a.realm? k) ((a.destroyRealm t key).realm? k) := by
  rw [realm?_destroyRealm]
  split
  · rename_i he
    exact Or.inr ⟨he ▸ h0, by simp⟩
  · exact Or.inl rfl

theorem still_destroyRealm (ha : a.Sound F) (h0 : ∀ u, depthIn key (F u) = 0) (t : Nat) :
    (a.destroyRealm t key).Sound F ∧ Still t a (a.destroyRealm t key) :=
  still_same ha (same_destroyRealm ha h0 t) (succeeds_destroyRealm h0 t) t

theorem realm?_createRealm (o : Options) (k : Nat) :
    (a.createRealm t key o).realm? k = if key = k then some (Realm.new key o) else a.realm? k := by
  rw [createRealm]
  show (setRealm _ key (Realm.new key o) _).realm? k = _
  rw [realm?_setRealm, realm?_destroyRealm]
  split <;> rfl

theorem same_createRealm (ha : a.Sound F) (h0 : ∀ u, depthIn key (F u) = 0) (t : Nat)
    (o : Options) : a.store.Same (a.createRealm t key o).store := by
  have hs := same_create key o (a.caller t) a.store
  obtain ⟨ha', -⟩ := still_of_realms
    (b := { a with store := (Realm.create key o (a.caller t) a.store).2 }) ha hs rfl t
  exact hs.trans (same_destroyRealm ha' h0 t)

theorem succeeds_createRealm (h0 : ∀ u, depthIn key (F u) = 0) (t : Nat) (o : Options) (k : Nat) :
    Succeeds F k (a.realm? k) ((a.createRealm t key o).realm? k) := by
  rw [realm?_createRealm]
  split
  · rename_i he
    exact Or.inr ⟨he ▸ h0, fun r hm => ⟨key, o, (Option.some.inj hm).symm⟩⟩
  · exact Or.inl rfl

theorem still_createRealm (ha : a.Sound F) (h0 : ∀ u, depthIn key (F u) = 0) (t : Nat)
    (o : Options) : (a.createRealm t key o).Sound F ∧ Still t a (a.createRealm t key o) :=
  still_same ha (same_createRealm ha h0 t o) (succeeds_createRealm h0 t o) t

/-- A thread that is inside of a scope of a realm keeps its stack there. -/
theorem Sound.pinned (ha : a.Sound F) (hr : a.realm? key = some r) {c : Custody}
    (hp : (r.outlook a.store t).level ≠ 0 → c.held? t = r.custody.held? t) {f : Frame}
    (hf : f ∈ F t) (hk : f.realm = key) : c.held? t = some f.stack := by
  obtain ⟨q, hq, hid⟩ := ha.framed hf
  rw [hk, hr] at hq
  obtain rfl := Option.some.inj hq
  rw [hp, hid]
  intro h0
  have hd := ha.depth t key
  rw [outlook_some hr, h0] at hd
  have hpos := depthIn_pos hf
  rw [hk] at hpos
  exact absurd hd.symm (Nat.ne_of_gt hpos)

theorem sound_pushed (ha : a.Sound F) (hr : a.realm? key = some r) {r' : Realm} {s' : Store}
    (hm : Realm.Move t r a.store r' s') {id : Nat} (hheld : r'.custody.held? t = some id)
    (hkept : ∀ f ∈ F t, f.realm = key → r'.custody.held? t = some f.stack)
    (hlevel : (r'.outlook s' t).level.toNat = depthIn key (F t) + 1) :
    (a.setRealm key r' s').Sound (Function.update F t (⟨key, id⟩ :: F t)) := by
  apply sound_setRealm ha hr hm fun u hu => Function.update_of_ne hu _ _
  · intro f hf hk
    rw [Function.update_self] at hf
    rcases List.mem_cons.1 hf with rfl | hf
    · exact absurd rfl hk
    · exact hf
  · intro f hf hk
    rw [Function.update_self] at hf
    rcases List.mem_cons.1 hf with rfl | hf
    · exact hheld
    · exact hkept f hf hk
  · intro k hk
    rw [Function.update_self, depthIn_cons, if_neg (Ne.symm hk)]
    rfl
  · rw [Function.update_self, depthIn_cons, if_pos rfl, hlevel]

theorem sound_popped (ha : a.Sound F) {f : Frame} {fs : List Frame} (hf : F t = f :: fs)
    (hr : a.realm? f.realm = some r) {r' : Realm} {s' : Store}
    (hm : Realm.Move t r a.store r' s')
    (hkept : ∀ g ∈ fs, g.realm = f.realm → r'.custody.held? t = some g.stack)
    (hlevel : (r'.outlook s' t).level.toNat = depthIn f.realm fs) :
    (a.setRealm f.realm r' s').Sound (Function.update F t fs) := by
  apply sound_setRealm ha hr hm fun u hu => Function.update_of_ne hu _ _
  · intro g hg _
    rw [Function.update_self] at hg
    rw [hf]
    exact List.mem_cons_of_mem _ hg
  · rw [Function.update_self]
    exact hkept
  · intro k hk
    rw [Function.update_self, hf, depthIn_cons, if_neg (Ne.symm hk)]
    rfl
  · rw [Function.update_self, hlevel]

/-- Work in a realm that the thread does not see is seen by nobody. -/
theorem inRealm_quiet {α : Type} (ha : a.Sound F) (t key : Nat)
    {f : Realm → Store → α × Realm × Store}
    (hf : let p := a.obtainRealm t key
      Realm.Quiet t p.1 p.2.store (f p.1 p.2.store).2.1 (f p.1 p.2.store).2.2) :
    (a.inRealm t key f).2.Sound F ∧ Still t a (a.inRealm t key f).2 ∧
      Steady a (a.inRealm t key f).2 := by
  obtain ⟨h1, h2, h3, hr⟩ := obtainRealm_spec ha t key
  rw [inRealm]
  generalize a.obtainRealm t key = p at h1 h2 h3 hr hf
  obtain ⟨r, a₁⟩ := p
  simp only at h1 h2 h3 hr hf ⊢
  obtain ⟨hshift, hout, hnew⟩ := shift_setRealm h1 hr hf.move
  have hsame : ∀ k, (a₁.setRealm key (f r a₁.store).2.1 (f r a₁.store).2.2).outlook t k =
      a₁.outlook t k := by
    intro k
    by_cases hk : k = key
    · subst hk
      rw [hnew, hf.same, outlook_some hr]
    · exact hout k hk
  refine ⟨?_, h2.trans ⟨hshift, hsame⟩, h3.trans (steady_setRealm hr hf.move.options _)⟩
  apply sound_setRealm h1 hr hf.move (fun _ _ => rfl) (fun _ h _ => h)
    (fun _ hm hk => h1.pinned hr hf.pinned hm hk) (fun _ _ => rfl)
  rw [hf.same, ← outlook_some hr, h1.depth]

theorem inRealm_spec {α : Type} (ha : a.Sound F) (t key : Nat)
    (f : Realm → Store → α × Realm × Store)
    (hf : ∀ r s, r.Sound s → Realm.Quiet t r s (f r s).2.1 (f r s).2.2) :
    (a.inRealm t key f).2.Sound F ∧ Still t a (a.inRealm t key f).2 ∧
      Steady a (a.inRealm t key f).2 := by
  obtain ⟨h1, -, -, hr⟩ := obtainRealm_spec ha t key
  exact inRealm_quiet ha t key (hf _ _ (h1.realms hr))

/-- How an entry ends in the arena, and what is seen then. -/
structure Entry (F : Nat → List Frame) (c : Catalog) (t key : Nat) (types : List TypeId)
    (a : Arena) (result : Except Failure Nat) (a' : Arena) : Prop where
  shift : Shift t a a'
  steady : Steady a a'
  others : ∀ k, k ≠ key → a'.outlook t k = a.outlook t k
  verdict : result.map (fun _ => ()) =
    (a.outlook t key).verdict c (a.options key).maxDepth a.store.traced types
  refused : ∀ f, result = .error f → a'.Sound F ∧ a'.outlook t key = a.outlook t key
  entered : ∀ id, result = .ok id → a'.Sound (Function.update F t (⟨key, id⟩ :: F t)) ∧
    (a.outlook t key).Over c.tree types (a'.outlook t key)

theorem entry_spec (ha : a.Sound F) (c : Catalog) (t key : Nat) (nickname : String)
    (types : List TypeId)
    (hl : (a.options key).maxDepth = 0 → depthIn key (F t) + 1 < 2 ^ 32) :
    Entry F c t key types a (a.inRealm t key fun r s => r.enter c ⟨t, nickname⟩ types s).1
      (a.inRealm t key fun r s => r.enter c ⟨t, nickname⟩ types s).2 := by
  obtain ⟨h1, h2, h3, hr⟩ := obtainRealm_spec ha t key
  have hroom := obtained_room ha t key hl
  rw [inRealm]
  generalize a.obtainRealm t key = p at h1 h2 h3 hr hroom
  obtain ⟨r, a₁⟩ := p
  simp only at h1 h2 h3 hr hroom ⊢
  have hout₁ : r.outlook a₁.store t = a.outlook t key := by rw [← outlook_some hr, h2.same]
  have hoptions : r.options = a.options key := by
    rw [← h3.options, options, hr]
    rfl
  have he := Realm.enter_spec (h1.realms hr) c ⟨t, nickname⟩ types hroom
  generalize r.enter c ⟨t, nickname⟩ types a₁.store = o at he ⊢
  obtain ⟨result, r', s'⟩ := o
  simp only at he ⊢
  obtain ⟨hshift, hout, hnew⟩ := shift_setRealm h1 hr he.move
  have hkept : ∀ f ∈ F t, f.realm = key → r'.custody.held? t = some f.stack := fun _ hf hk =>
    h1.pinned hr he.pinned hf hk
  refine ⟨h2.shift.trans hshift, h3.trans (steady_setRealm hr he.move.options _),
    fun k hk => (hout k hk).trans (h2.same k), ?_, ?_, ?_⟩
  · rw [he.verdict, hout₁, hoptions, h2.shift.store.traced]
  · intro f hf
    have hsame := he.refused f hf
    refine ⟨?_, by rw [hnew, hsame, hout₁]⟩
    refine sound_setRealm h1 hr he.move (fun _ _ => rfl) (fun _ h _ => h) hkept (fun _ _ => rfl) ?_
    rw [hsame, ← outlook_some hr, h1.depth]
  · intro id hid
    obtain ⟨hheld, hover⟩ := he.entered id hid
    rw [hout₁] at hover
    constructor
    · apply sound_pushed h1 hr he.move hheld hkept
      rw [hover.level, ha.depth]
    · rw [hnew]
      exact hover

theorem leaveFrame_spec (ha : a.Sound F) {f : Frame} {fs : List Frame} (hf : F t = f :: fs) :
    (a.leaveFrame t f).Sound (Function.update F t fs) ∧ Shift t a (a.leaveFrame t f) ∧
      Steady a (a.leaveFrame t f) ∧
      ∀ k, (a.leaveFrame t f).outlook t k = Outlook.leave^[depthIn k [f]] (a.outlook t k) := by
  obtain ⟨r, hr, hid⟩ := ha.framed (t := t) (f := f) (by rw [hf]; exact List.mem_cons_self)
  have hd : (r.outlook a.store t).level.toNat = depthIn f.realm fs + 1 := by
    rw [← outlook_some hr, ha.depth, hf, depthIn_cons, if_pos rfl]
  obtain ⟨hm, hout', hheld⟩ := Realm.leave_spec (t := a.caller t) (ha.realms hr) hid (by
    show 0 < (r.outlook a.store t).level.toNat
    omega)
  simp only [caller] at hm hout' hheld
  rw [leaveFrame, hr]
  simp only [caller]
  generalize r.leave ⟨t, (a.thread t).nickname⟩ f.stack a.store = o at hm hout' hheld ⊢
  obtain ⟨r', s'⟩ := o
  simp only at hm hout' hheld ⊢
  obtain ⟨hshift, hout, hnew⟩ := shift_setRealm ha hr hm
  have hlevel : (r.outlook a.store t).leave.level.toNat = depthIn f.realm fs := by
    have h0 : 0 < (r.outlook a.store t).level.toNat := by omega
    have h := Site.level_leave h0
    show ((r.outlook a.store t).level - 1).toNat = _
    omega
  refine ⟨?_, hshift, steady_setRealm hr hm.options _, ?_⟩
  · apply sound_popped ha hf hr hm
    · intro g hg hk
      obtain ⟨q, hq, hgid⟩ := ha.framed (t := t) (f := g) (by
        rw [hf]
        exact List.mem_cons_of_mem _ hg)
      rw [hk, hr] at hq
      obtain rfl := Option.some.inj hq
      rw [hheld, ← hid, hgid]
      intro h0
      have hpos := depthIn_pos hg
      rw [hk, ← hlevel, h0] at hpos
      exact absurd hpos (Nat.lt_irrefl _)
    · rw [hout', hlevel]
  · intro k
    by_cases hk : k = f.realm
    · subst hk
      rw [hnew, hout', outlook_some hr, depthIn_cons, if_pos rfl]
      rfl
    · rw [hout k hk, depthIn_cons, if_neg (Ne.symm hk)]
      rfl

/-- Scopes are left one by one, the innermost first. -/
theorem leaveFrames_spec (ha : a.Sound F) {fs gs : List Frame} (hf : F t = fs ++ gs) :
    (a.leaveFrames t fs).Sound (Function.update F t gs) ∧ Shift t a (a.leaveFrames t fs) ∧
      Steady a (a.leaveFrames t fs) ∧
      ∀ k, (a.leaveFrames t fs).outlook t k =
        Outlook.leave^[depthIn k fs] (a.outlook t k) := by
  induction fs generalizing a F with
  | nil =>
    have hF : Function.update F t gs = F := by
      rw [← List.nil_append gs, ← hf, Function.update_eq_self]
    rw [hF]
    exact ⟨ha, .refl t a, .refl a, fun _ => rfl⟩
  | cons f fs ih =>
    obtain ⟨h1, h2, h3, h4⟩ := leaveFrame_spec ha hf
    obtain ⟨i1, i2, i3, i4⟩ := ih h1 (Function.update_self _ _ _)
    rw [Function.update_idem] at i1
    refine ⟨i1, h2.trans i2, h3.trans i3, fun k => ?_⟩
    have hd : depthIn k (f :: fs) = depthIn k fs + depthIn k [f] := by
      rw [depthIn_cons, depthIn_cons, depthIn]
      simp [depthIn]
    show ((a.leaveFrame t f).leaveFrames t fs).outlook t k = _
    rw [i4, h4, hd, Function.iterate_add_apply]

theorem depthIn_filter (key k : Nat) (fs : List Frame) :
    depthIn k (fs.filter fun f => f.realm ≠ key) = if k = key then 0 else depthIn k fs := by
  induction fs with
  | nil => split <;> rfl
  | cons f fs ih =>
    rw [depthIn_cons, List.filter_cons]
    by_cases hf : f.realm = key
    · rw [if_neg (by simpa using hf), ih]
      by_cases hk : k = key
      · rw [if_pos hk, if_pos hk]
      · rw [if_neg hk, if_neg hk, if_neg fun h => hk (h.symm.trans hf)]
        rfl
    · rw [if_pos (by simpa using hf), depthIn_cons, ih]
      by_cases hk : k = key
      · rw [if_pos hk, if_pos hk, hk, if_neg hf]
      · rw [if_neg hk, if_neg hk]

theorem exitRealm_spec (ha : a.Sound F) (t key : Nat) :
    (a.exitRealm t key).Sound (Function.update F t ((F t).filter fun f => f.realm ≠ key)) ∧
      Shift t a (a.exitRealm t key) ∧ Steady a (a.exitRealm t key) := by
  rw [exitRealm]
  cases hr : a.realm? key with
  | none =>
    have hf : (F t).filter (fun f => f.realm ≠ key) = F t := by
      apply List.filter_eq_self.2
      intro f hf
      obtain ⟨r, hr', -⟩ := ha.framed hf
      apply decide_eq_true
      intro he
      rw [he, hr] at hr'
      cases hr'
    rw [hf, Function.update_eq_self]
    exact ⟨ha, .refl t a, .refl a⟩
  | some r =>
    obtain ⟨hm, hout'⟩ := Realm.threadExit_spec (ha.realms hr) (a.caller t)
    simp only [caller] at hm hout' ⊢
    generalize r.threadExit ⟨t, (a.thread t).nickname⟩ a.store = o at hm hout' ⊢
    obtain ⟨r', s'⟩ := o
    simp only at hm hout' ⊢
    obtain ⟨hshift, hout, hnew⟩ := shift_setRealm ha hr hm
    refine ⟨?_, hshift, steady_setRealm hr hm.options _⟩
    refine sound_setRealm ha hr hm (fun u hu => Function.update_of_ne hu _ _) ?_ ?_ ?_ ?_
    · intro f hf _
      rw [Function.update_self] at hf
      exact (List.mem_filter.1 hf).1
    · intro f hf hk
      rw [Function.update_self] at hf
      exact absurd hk (of_decide_eq_true (List.mem_filter.1 hf).2)
    · intro k hk
      rw [Function.update_self, depthIn_filter, if_neg hk]
    · rw [hout', Function.update_self, depthIn_filter, if_pos rfl]
      rfl

theorem exitRealms_spec (ha : a.Sound F) (t : Nat) (keys : List Nat) :
    (keys.foldl (exitRealm t) a).Sound
        (Function.update F t ((F t).filter fun f => f.realm ∉ keys)) ∧
      Shift t a (keys.foldl (exitRealm t) a) ∧ Steady a (keys.foldl (exitRealm t) a) := by
  induction keys generalizing a F with
  | nil =>
    have hf : (F t).filter (fun f => f.realm ∉ ([] : List Nat)) = F t :=
      List.filter_eq_self.2 fun f _ => by simp
    rw [hf, Function.update_eq_self]
    exact ⟨ha, .refl t a, .refl a⟩
  | cons key keys ih =>
    obtain ⟨h1, h2, h3⟩ := exitRealm_spec ha t key
    obtain ⟨i1, i2, i3⟩ := ih h1
    refine ⟨?_, h2.trans i2, h3.trans i3⟩
    rw [Function.update_idem, Function.update_self, List.filter_filter] at i1
    have hf : (fun f : Frame => decide (f.realm ∉ keys) && decide (f.realm ≠ key)) =
        fun f => decide (f.realm ∉ key :: keys) := by
      funext f
      simp [Bool.and_comm]
    rw [hf] at i1
    exact i1

/-- A thread that is in no scope sees nothing. -/
theorem Sound.outside (ha : a.Sound F) (hf : F t = []) (key : Nat) :
    a.outlook t key = Outlook.idle := by
  apply ha.idle
  have hd := ha.depth t key
  rw [hf] at hd
  exact UInt32.toNat_inj.1 hd

end ScopedMethods.Arena

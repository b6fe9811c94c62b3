import ScopedMethods.Proofs.Pinning
import ScopedMethods.Proofs.Snapshots
import ScopedMethods.Proofs.Upkeep

/-!
# The counters of names

A chain takes its counter from the one that it shadows, and a first chain from the
ledger; so along every lineage, and over lineages that end and begin anew on other
stacks, a name has one counter as long as its realm is there. When the realm ends
nothing is in effect any more: the counter reads zero then, and no ledger ever
holds it again.
-/

set_option autoImplicit false

namespace ScopedMethods

def Ledger.Serves (l : Ledger) (s : Store) (j : ChainId) : Prop :=
  l.counters.get? (s.chain j).name = some (s.chain j).counter

/-- Chains are made with the counters of their names, and keep name and counter. -/
structure Ledger.Mints (s : Store) (l : Ledger) (s' : Store) (l' : Ledger) : Prop where
  size : s.chains.size ≤ s'.chains.size
  labels : ∀ {j : ChainId}, j.number < s.chains.size →
    (s'.chain j).name = (s.chain j).name ∧ (s'.chain j).counter = (s.chain j).counter
  kept : ∀ {n : String} {k : CounterId}, l.counters.get? n = some k → l'.counters.get? n = some k
  fresh : ∀ {j : ChainId}, s.chains.size ≤ j.number → j.number < s'.chains.size → l'.Serves s' j

namespace Ledger.Mints

variable {s s₁ s' : Store} {l l₁ l' : Ledger}

theorem refl (s : Store) (l : Ledger) : Ledger.Mints s l s l :=
  ⟨le_refl _, fun _ => ⟨rfl, rfl⟩, fun h => h, fun h h' => absurd h' (Nat.not_lt.2 h)⟩

theorem trans (h : Ledger.Mints s l s₁ l₁) (h' : Ledger.Mints s₁ l₁ s' l') :
    Ledger.Mints s l s' l' where
  size := h.size.trans h'.size
  labels := by
    intro j hj
    obtain ⟨h1, h2⟩ := h.labels hj
    obtain ⟨h3, h4⟩ := h'.labels (hj.trans_le h.size)
    exact ⟨h3.trans h1, h4.trans h2⟩
  kept := fun hn => h'.kept (h.kept hn)
  fresh := by
    intro j hj hj'
    by_cases hmid : j.number < s₁.chains.size
    · obtain ⟨h3, h4⟩ := h'.labels hmid
      rw [Ledger.Serves, h3, h4]
      exact h'.kept (h.fresh hj hmid)
    · exact h'.fresh (Nat.not_lt.1 hmid) hj'

theorem of_chains (hc : s'.chains = s.chains)
    (hk : ∀ {n : String} {k : CounterId}, l.counters.get? n = some k →
      l'.counters.get? n = some k) :
    Ledger.Mints s l s' l' where
  size := le_of_eq (by rw [hc])
  labels := fun _ => by simp [Store.chain, hc]
  kept := hk
  fresh := fun hj hj' => absurd hj' (Nat.not_lt.2 (by rw [hc]; exact hj))

theorem of_upkept (h : Ledger.Upkept s l s' l') : Ledger.Mints s l s' l' :=
  .of_chains h.chains (fun hn => by rw [h.names]; exact hn)

theorem note (h : Ledger.Mints s l s' l') (t : Caller) (e : Event) :
    Ledger.Mints s l (s'.note t e) l' :=
  ⟨h.size, h.labels, h.kept, h.fresh⟩

end Ledger.Mints

theorem Store.labels_setEntries (s : Store) (id : ChainId) (es : List Candidate) (j : ChainId) :
    ((s.setEntries id es).chain j).name = (s.chain j).name ∧
      ((s.setEntries id es).chain j).counter = (s.chain j).counter := by
  simp only [setEntries, chain, Array.getElem?_modify]
  split
  · cases s.chains[j.number]? <;> exact ⟨rfl, rfl⟩
  · exact ⟨rfl, rfl⟩

namespace Site

variable {w w₁ : Site} {name : String}

def Mints (w w' : Site) : Prop := Ledger.Mints w.store w.ledger w'.store w'.ledger

theorem mints_push (name : String) {c : Chain}
    (hk : w.ledger.counters.get? c.name = some c.counter) : w.Mints (w.push name c) where
  size := by
    rw [size_push]
    exact Nat.le_succ _
  labels := fun hj => by rw [chain_push_of_lt hj]; exact ⟨rfl, rfl⟩
  kept := fun hn => hn
  fresh := by
    intro j hj hj'
    rw [size_push] at hj'
    obtain rfl : j = ⟨w.store.chains.size⟩ := by
      obtain ⟨n⟩ := j
      exact congrArg ChainId.mk (Nat.le_antisymm (Nat.le_of_lt_succ hj') hj)
    rw [Ledger.Serves, chain_push_self]
    exact hk

theorem mints_grow (id : ChainId) (es : List Candidate) : w.Mints (w.grow id es) where
  size := le_of_eq size_grow.symm
  labels := fun _ => Store.labels_setEntries w.store id es _
  kept := fun hn => hn
  fresh := fun hj hj' => absurd hj' (Nat.not_lt.2 (by rw [size_grow]; exact hj))

theorem mints_touch (hw : w.Sound) (t : Caller) (name : String) :
    w.Mints (w.touch t name).2 := by
  unfold touch
  cases hc : w.stack.chain? name with
  | some id =>
    by_cases hlev : (w.store.chain id).level = w.stack.level
    · simp only [hlev, if_true]
      exact .refl _ _
    · simp only [hlev, if_false]
      have hlink := hw.linked name
      rw [show w.lineage name = w.store.lineage id from ScopeStack.lineage_of_some hc _] at hlink
      exact (mints_push name (c := ⟨name, w.stack.level, (w.store.chain id).entries,
        (w.store.chain id).counter, id :: (w.store.chain id).shadows⟩) hlink.2.1.symm).note t _
  | none =>
    have hu := Ledger.used t name hw.ledger
    have hpush := mints_push (w := { w with
        store := (w.ledger.usage t name w.store).2.1
        ledger := (w.ledger.usage t name w.store).2.2 })
      name (c := ⟨name, w.stack.level, [], (w.ledger.usage t name w.store).1, []⟩) hu.found
    exact Ledger.Mints.trans (.of_chains hu.chains hu.extends_.kept) (hpush.note t _)

theorem mints_offer (hw : w.Sound) (c : Catalog) (t : Caller) (m : Method) :
    w.Mints (w.offer c t m).2 := by
  have ht := mints_touch hw t m.name
  unfold offer
  generalize w.touch t m.name = o at ht
  obtain ⟨id, w₁⟩ := o
  simp only [Store.add] at ht ⊢
  cases c.place (.ofMethod m) (w₁.store.chain id).entries with
  | error f => exact ht
  | ok es => exact ht.trans ((mints_grow id es).note t _)

theorem mints_announce (c : Catalog) (t : Caller) (ty : TypeId) (n : Nat) (w : Site) :
    w.Mints (w.announce c t ty n).2 := by
  unfold announce
  split
  · cases c.typeName ty with
    | error f => exact .refl _ _
    | ok name => exact (Ledger.Mints.refl _ _).note t _
  · exact .refl _ _

theorem mints_carry (c : Catalog) (t : Caller) (tasks : List Task) (hw : w.Sound)
    (h0 : 0 < w.stack.level.toNat) : w.Mints (w.carry c t tasks).2 := by
  -- For all sites: the ledger that gives the next chain its counter is the one so far.
  induction tasks generalizing w with
  | nil => exact .refl _ _
  | cons task tasks ih =>
    cases task with
    | ask q ty =>
      rw [carry]
      cases c.info q ty with
      | error f => exact .refl _ _
      | ok i => exact ih hw h0
    | announce ty n =>
      have hm := mints_announce c t ty n w
      obtain ⟨ha, -, -⟩ := announce_spec c t ty n hw
      rw [carry]
      generalize w.announce c t ty n = o at ha hm ⊢
      obtain ⟨r, w₁⟩ := o
      cases r with
      | error f => exact hm
      | ok u => exact Ledger.Mints.trans hm (ih ha.sound (by rw [ha.level]; exact h0))
    | offer m =>
      have hm := mints_offer hw c t m
      obtain ⟨ha, -, -⟩ := offer_spec c t m hw h0
      rw [carry]
      generalize w.offer c t m = o at ha hm ⊢
      obtain ⟨r, w₁⟩ := o
      cases r with
      | error f => exact hm
      | ok u => exact Ledger.Mints.trans hm (ih ha.sound (by rw [ha.level]; exact h0))

theorem mints_laying (c : Catalog) (t : Caller) (types : List TypeId) (realm : Nat)
    (he : Entered w w₁) : w.Mints (Realm.layTypes c t types realm w₁).2 := by
  have hn : (w₁.note t (.typesLaid realm types.length w₁.stack.level)).Sound :=
    sound_note he.sound t _
  have h0 : 0 < (w₁.note t (.typesLaid realm types.length w₁.stack.level)).stack.level.toNat := by
    show 0 < w₁.stack.level.toNat
    rw [he.level]
    omega
  have hopen : w.Mints w₁ := .of_chains he.chains fun hk => by rw [he.names]; exact hk
  rw [Realm.layTypes, layAll_eq_carry]
  exact (hopen.note t _).trans (mints_carry c t _ hn h0)

end Site

namespace Realm

variable {r : Realm} {s : Store}

def Mints (r : Realm) (s : Store) (r' : Realm) (s' : Store) : Prop :=
  Ledger.Mints s r.ledger s' r'.ledger

theorem mints_openOn (hr : r.Sound s) {t : Caller} {id : Nat}
    (hid : r.custody.held? t.thread = some id) (c : Catalog) (types : List TypeId)
    (hl : r.options.maxDepth = 0 → (r.outlook s t.thread).level.toNat + 1 < 2 ^ 32) :
    r.Mints s (r.openOn c t types id s).2.1 (r.openOn c t types id s).2.2 := by
  obtain ⟨st, hst⟩ := hr.stack_of_held hid
  rw [outlook_some hid hst, ← hr.limit hst] at hl
  rcases openOn_cases hr hst c t types hl with ⟨f, s', hs, heq⟩ | ⟨w, he, heq⟩
  · rw [heq]
    exact .of_chains hs.chains fun hn => hn
  · rw [heq]
    exact Site.mints_laying c t types _ he

theorem mints_opening (hr : r.Sound s) (c : Catalog) (t : Caller) (types : List TypeId)
    (hl : r.options.maxDepth = 0 → (r.outlook s t.thread).level.toNat + 1 < 2 ^ 32) :
    r.Mints s (r.opening c t types s).2.1 (r.opening c t types s).2.2 := by
  obtain ⟨hq, id, hid, heq⟩ := opening_eq hr c t types
  have hu : Ledger.Upkept s r.ledger _ _ :=
    Custody.upheld_obtain (Grounds.upholds r.options) t r.custody (r.grounds s)
  rw [heq]
  exact Ledger.Mints.trans (.of_upkept hu)
    (mints_openOn hq.move.sound hid c types (by rw [hq.same, hq.move.options]; exact hl))

theorem mints_enter (hr : r.Sound s) (c : Catalog) (t : Caller) (types : List TypeId)
    (hl : r.options.maxDepth = 0 → (r.outlook s t.thread).level.toNat + 1 < 2 ^ 32) :
    r.Mints s (r.enter c t types s).2.1 (r.enter c t types s).2.2 := by
  have h := mints_opening hr c t types hl
  rw [enter_eq]
  generalize r.opening c t types s = o at h ⊢
  obtain ⟨result, r', s'⟩ := o
  match result, h with
  | .error f, h => exact h
  | .ok (id, .ok ()), h => exact h
  | .ok (id, .error f), h => exact Ledger.Mints.trans h (.of_upkept (upkept_leave t r' s' id))

end Realm

namespace Arena

variable {a b a' : Arena} {t u key : Nat} {name : String} {k : CounterId}

structure Mints (key : Nat) (a a' : Arena) : Prop where
  kept : ∀ {i : Nat} {n : String} {k : CounterId}, a.counter? i n = some k →
    a'.counter? i n = some k
  fresh : ∀ {j : ChainId}, a.store.chains.size ≤ j.number → j.number < a'.store.chains.size →
    a'.counter? key (a'.store.chain j).name = some (a'.store.chain j).counter

theorem mints_inRealm {α : Type} (a : Arena) (t key : Nat) (f : Realm → Store → α × Realm × Store)
    (hf : (a.obtainRealm t key).1.Mints (a.obtainRealm t key).2.store
      (f (a.obtainRealm t key).1 (a.obtainRealm t key).2.store).2.1
      (f (a.obtainRealm t key).1 (a.obtainRealm t key).2.store).2.2) :
    Mints key a (a.inRealm t key f).2 := by
  have hu := fun i => (upkept_obtainRealm a t key i).1
  have hr := (upkept_obtainRealm a t key key).2
  rw [inRealm]
  generalize a.obtainRealm t key = p at hf hu hr ⊢
  obtain ⟨r, a₁⟩ := p
  simp only at hf hu hr ⊢
  constructor
  · intro i n k hk
    rw [← (hu i).names] at hk
    rw [counter?_setRealm]
    split
    · rename_i hi
      rw [← hi, counter?_some hr] at hk
      exact hf.kept hk
    · exact hk
  · intro j hj hj'
    rw [counter?_setRealm, if_pos rfl]
    rw [← (hu key).chains] at hj
    exact hf.fresh hj hj'

theorem Mints.after (hb : ∀ i, Upkept i a b) (h : Mints key b a') : Mints key a a' where
  kept := fun hk => h.kept (by rw [(hb _).names]; exact hk)
  fresh := fun hj => h.fresh (by rw [(hb key).chains]; exact hj)

theorem mints_enter (ha : a.Sound a.frames) {types : List TypeId}
    (hp : a.Allowed t (.enter key types)) : Mints key a (a.step t (.enter key types)).2 := by
  obtain ⟨h1, -⟩ := still_withThread ha t
  obtain ⟨h3, -, -, hr⟩ := obtainRealm_spec h1 t key
  have hroom := obtained_room h1 t key fun h0 =>
    hp.entered key types rfl (by rw [options_withThread] at h0; exact h0)
  have hm := mints_inRealm (a.withThread t) t key
    (fun r s => r.enter (a.withThread t).catalog ((a.withThread t).caller t) types s)
    (Realm.mints_enter (h3.realms hr) _ _ types hroom)
  refine .after (upkept_withThread a t) ?_
  show Mints key (a.withThread t) (Arena.enter (a.withThread t) t key types).2
  rw [enter]
  generalize (a.withThread t).inRealm t key _ = o at hm ⊢
  obtain ⟨result, a₁⟩ := o
  cases result with
  | error f => exact hm
  | ok id => exact ⟨hm.kept, hm.fresh⟩

theorem mints_nameUsage (ha : a.Sound a.frames) (t key : Nat) (name : String) :
    Mints key a (a.step t (.nameUsage key name)).2 ∧
      (a.step t (.nameUsage key name)).2.store.chains = a.store.chains ∧
      ∃ k, (a.step t (.nameUsage key name)).1 = .counter k ∧
        (a.step t (.nameUsage key name)).2.counter? key name = some k := by
  obtain ⟨h1, -⟩ := still_withThread ha t
  obtain ⟨h3, -, -, hr⟩ := obtainRealm_spec h1 t key
  have hobtained := (upkept_obtainRealm (a.withThread t) t key key).1
  have hu := Ledger.used ((a.withThread t).caller t) name (h3.realms hr).ledger
  have hm := mints_inRealm (a.withThread t) t key
    (fun r s => r.nameUsage ((a.withThread t).caller t) name s)
    (Ledger.Mints.of_chains hu.chains hu.extends_.kept)
  refine ⟨.after (upkept_withThread a t) hm, ?_, _, rfl, ?_⟩
  · exact hu.chains.trans (hobtained.chains.trans (upkept_withThread a t key).chains)
  · exact (counter?_setRealm key name).trans ((if_pos rfl).trans hu.found)

/-- A counter that no name of any realm has any more, and that reads zero. -/
structure Retired (a : Arena) (k : CounterId) : Prop where
  bounded : k.number < a.store.counters.size
  unknown : ∀ key name, a.counter? key name ≠ some k
  zero : a.store.counter k = 0

theorem Retired.books (h : a.Retired k) (hb : Books a b) : b.Retired k where
  bounded := h.bounded.trans_le hb.size
  unknown := by
    intro key name hn
    rcases hb.fresh hn with hn | hge
    · exact h.unknown key name hn
    · exact absurd h.bounded (Nat.not_lt.2 hge)
  zero := (hb.spare h.bounded h.unknown).trans h.zero

theorem usageCount_eq_counter (a : Arena) (key : Nat) (name : String) :
    a.usageCount key name = (a.counter? key name).elim 0 a.store.counter := by
  rw [usageCount, counter?]
  cases a.realm? key with
  | none => rfl
  | some r =>
    simp only [Option.elim_some, Option.bind_some, Realm.usageCount, Ledger.count]
    cases r.ledger.counters.get? name <;> rfl

theorem counter?_bounded (ha : a.Sound a.frames) (h : a.counter? key name = some k) :
    k.number < a.store.counters.size := by
  obtain ⟨r, hr, hk⟩ := Option.bind_eq_some_iff.1 h
  exact (ha.realms hr).ledger.bounded hk

/-- A counter is that of one name in one realm. -/
theorem counter?_unique (ha : a.Sound a.frames) {i : Nat} {n : String}
    (h : a.counter? key name = some k) (h' : a.counter? i n = some k) : i = key ∧ n = name := by
  obtain ⟨r, hr, hk⟩ := Option.bind_eq_some_iff.1 h
  obtain ⟨q, hq, hk'⟩ := Option.bind_eq_some_iff.1 h'
  by_cases hi : i = key
  · subst hi
    rw [hr] at hq
    cases hq
    exact ⟨rfl, (ha.realms hr).ledger.injective hk' hk⟩
  · exact absurd hk (ha.apart hi hq hr hk')

theorem counter_deserted (ha : a.Sound a.frames) (h0 : ∀ u, depthIn key (a.frames u) = 0)
    (hk : a.counter? key name = some k) : a.store.counter k = 0 := by
  have h := usageCount_eq ha key name
  rw [usageCount_eq_counter, hk, (ha.deserted h0).2.1] at h
  exact h

theorem ends_step (ha : a.Sound a.frames) {act : Act} (hp : a.Allowed t act)
    (he : act.ends key = true) :
    (∀ u, depthIn key (a.frames u) = 0) ∧ a.store.Same (a.step t act).2.store ∧
      ∀ name, (a.step t act).2.counter? key name = none := by
  obtain ⟨h1, -⟩ := still_withThread ha t
  have hs : a.store.Same (a.withThread t).store := by
    rw [store_withThread]
    exact .refl _
  cases act with
  | createRealm i o =>
    obtain rfl : i = key := of_decide_eq_true he
    have h0 := hp.created i o rfl
    refine ⟨h0, hs.trans (same_createRealm h1 h0 t o), fun name => ?_⟩
    exact (counter?_createRealm (a.withThread t) t i o i name).trans (if_pos rfl)
  | destroyRealm i =>
    obtain rfl : i = key := of_decide_eq_true he
    have h0 := hp.destroyed i rfl
    refine ⟨h0, hs.trans (same_destroyRealm h1 h0 t), fun name => ?_⟩
    exact (counter?_destroyRealm (a.withThread t) t i i name).trans (if_pos rfl)
  | _ => cases he

end Arena

theorem Act.exists_spared (act : Act) : ∃ key, act.ends key = false := by
  cases act with
  | createRealm k o => exact ⟨k + 1, decide_eq_false (by omega)⟩
  | destroyRealm k => exact ⟨k + 1, decide_eq_false (by omega)⟩
  | _ => exact ⟨0, rfl⟩

namespace Arena

variable {a : Arena} {key : Nat} {name : String} {k : CounterId} {h : Happening}
  {hs : List Happening}

def Happening.ends (key : Nat) : Happening → Bool
  | .act _ x => x.ends key
  | .cut _ => false

theorem upkept_cutOff (a : Arena) (t key : Nat) : Upkept key a (a.cutOff t) := by
  have h := upkept_exitRealms a t a.realms.keys key
  exact ⟨h.chains, h.names⟩

theorem books_happen (ha : a.Sound a.frames) (hp : a.Admits h) : Books a (a.happen h) := by
  cases h with
  | act t act => exact (step_spec ha hp).shift.books
  | cut t => exact (cutOff_spec ha t).2.1.books

theorem counter?_happen (ha : a.Sound a.frames) (hp : a.Admits h) (he : h.ends key = false)
    (hk : a.counter? key name = some k) : (a.happen h).counter? key name = some k := by
  cases h with
  | cut t => exact (congrFun (upkept_cutOff a t key).names name).trans hk
  | act t act =>
    cases hm : act.makes with
    | false => exact (congrFun (upkept_step he hm).names name).trans hk
    | true =>
      cases act with
      | enter i types => exact (mints_enter ha (allowed_iff.2 hp)).kept hk
      | nameUsage i n => exact (mints_nameUsage ha t i n).1.kept hk
      | _ => cases hm

/-- Only an entry makes chains, with counters of the realm that is entered. -/
theorem chain_made (ha : a.Sound a.frames) (hp : a.Admits h) {j : ChainId}
    (hj : a.store.chains.size ≤ j.number) (hj' : j.number < (a.happen h).store.chains.size) :
    ∃ t key types, h = .act t (.enter key types) ∧
      (a.happen h).counter? key ((a.happen h).store.chain j).name =
        some ((a.happen h).store.chain j).counter := by
  have hnone : (a.happen h).store.chains ≠ a.store.chains := by
    intro hc
    rw [hc] at hj'
    exact absurd hj' (Nat.not_lt.2 hj)
  cases h with
  | cut t => exact absurd (upkept_cutOff a t 0).chains hnone
  | act t act =>
    cases hm : act.makes with
    | false =>
      obtain ⟨i, hi⟩ := act.exists_spared
      exact absurd (upkept_step hi hm).chains hnone
    | true =>
      cases act with
      | enter i types => exact ⟨t, i, types, rfl, (mints_enter ha (allowed_iff.2 hp)).fresh hj hj'⟩
      | nameUsage i n => exact absurd (mints_nameUsage ha t i n).2.1 hnone
      | _ => cases hm

theorem retired_happen (ha : a.Sound a.frames) (hp : a.Admits h) (he : h.ends key = true)
    (hk : a.counter? key name = some k) : (a.happen h).Retired k := by
  cases h with
  | cut t => cases he
  | act t act =>
    have hb := books_happen ha hp
    obtain ⟨h0, hs, hnone⟩ := ends_step ha (allowed_iff.2 hp) he
    have hbound := counter?_bounded ha hk
    refine ⟨hbound.trans_le hb.size, fun i n hn => ?_, ?_⟩
    · rcases hb.fresh hn with hn' | hge
      · obtain ⟨rfl, -⟩ := counter?_unique ha hk hn'
        rw [show (a.happen (.act t act)).counter? i n = none from hnone n] at hn
        cases hn
      · exact absurd hbound (Nat.not_lt.2 hge)
    · exact (hs.counter k).trans (counter_deserted ha h0 hk)

theorem Retired.through (hk : a.Retired k) (ha : a.Sound a.frames) (hl : a.Orderly hs) :
    (a.through hs).Retired k := by
  induction hs generalizing a with
  | nil => exact hk
  | cons h hs ih => exact ih (hk.books (books_happen ha hl.1)) (sound_happen ha hl.1) hl.2

/-- What becomes of the counter of a name: it is the name's own until the realm ends, and
the count of the name is its value; from then on it is no name's and reads zero. -/
structure Fate (key : Nat) (name : String) (k : CounterId) (hs : List Happening) (c : Arena) :
    Prop where
  lives : (∀ h ∈ hs, h.ends key = false) →
    c.counter? key name = some k ∧ c.usageCount key name = c.store.counter k
  retires : (∃ h ∈ hs, h.ends key = true) → c.Retired k

theorem fate_through (ha : a.Sound a.frames) (hl : a.Orderly hs)
    (hk : a.counter? key name = some k) : Fate key name k hs (a.through hs) := by
  induction hs generalizing a with
  | nil =>
    refine ⟨fun _ => ⟨hk, ?_⟩, fun ⟨_, hm, _⟩ => nomatch hm⟩
    show a.usageCount key name = a.store.counter k
    rw [usageCount_eq_counter, hk]
    rfl
  | cons h hs ih =>
    cases he : h.ends key with
    | true =>
      refine ⟨fun hall => ?_, fun _ => ?_⟩
      · rw [hall h List.mem_cons_self] at he
        cases he
      · exact (retired_happen ha hl.1 he hk).through (sound_happen ha hl.1) hl.2
    | false =>
      obtain ⟨hlives, hretires⟩ := ih (sound_happen ha hl.1) hl.2 (counter?_happen ha hl.1 he hk)
      refine ⟨fun hall => hlives fun h' hm => hall h' (List.mem_cons_of_mem _ hm), ?_⟩
      rintro ⟨h', hm, he'⟩
      apply hretires
      rcases List.mem_cons.1 hm with rfl | hm
      · rw [he] at he'
        cases he'
      · exact ⟨h', hm, he'⟩

theorem opening_counters (ha : a.Sound a.frames) {t : Nat} {types : List TypeId}
    (hp : a.Permits t (.enter key types)) :
    let p := a.obtainRealm t key
    let o := p.1.opening a.catalog (a.caller t) types p.2.store
    (∀ {j : ChainId}, a.store.chains.size ≤ j.number → j.number < o.2.2.chains.size →
      o.2.1.ledger.Serves o.2.2 j) ∧
    ∀ {n k}, a.counter? key n = some k → o.2.1.ledger.counters.get? n = some k := by
  intro p o
  obtain ⟨h1, -, -, hr⟩ := obtainRealm_spec ha t key
  have hu := (upkept_obtainRealm a t key key).1
  have hm : p.1.Mints p.2.store o.2.1 o.2.2 := Realm.mints_opening (h1.realms hr) a.catalog
    (a.caller t) types (obtained_room ha t key hp)
  constructor
  · intro j hj
    rw [← hu.chains] at hj
    exact hm.fresh hj
  · intro n k hk
    rw [← hu.names, counter?_some hr] at hk
    exact hm.kept hk

theorem usage_asked (s : Session) (t key : Nat) (name : String) :
    (s.realmStep t key (.usage name)).1 = .count (s.arena.usageCount key name) ∧
      (s.realmStep t key (.usage name)).2.store.counters = s.store.counters ∧
      ∀ i, Upkept i s.arena (s.realmStep t key (.usage name)).2.arena := by
  refine ⟨?_, ?_, fun i => (upkept_obtainRealm s.arena t key i).1⟩
  · simp only [Session.realmStep, Session.obtainRealm, Session.store, obtainRealm, usageCount]
    cases s.arena.realm? key <;> rfl
  · simp only [Session.realmStep, Session.obtainRealm, Session.store, obtainRealm]
    cases s.arena.realm? key <;> rfl

/-- How counters, names and counts of an arena belong together. -/
structure Accounts (a : Arena) : Prop where
  own : ∀ {key i name n k}, a.counter? key name = some k → a.counter? i n = some k →
    i = key ∧ n = name
  count : ∀ key name, a.usageCount key name = (a.counter? key name).elim 0 a.store.counter
  inEffect : ∀ key name, a.usageCount key name = Int32.ofNat (a.inEffect key name)
  asked : ∀ (s : Session) t key name, s.arena = a →
    (s.realmStep t key (.usage name)).1 = .count (a.usageCount key name) ∧
      (s.realmStep t key (.usage name)).2.store.counters = a.store.counters ∧
      ∀ i, Upkept i a (s.realmStep t key (.usage name)).2.arena
  laying : ∀ t key types, a.Permits t (.enter key types) →
    let p := a.obtainRealm t key
    let o := p.1.opening a.catalog (a.caller t) types p.2.store
    (∀ {j : ChainId}, a.store.chains.size ≤ j.number → j.number < o.2.2.chains.size →
      o.2.1.ledger.Serves o.2.2 j) ∧
    ∀ {n k}, a.counter? key n = some k → o.2.1.ledger.counters.get? n = some k

theorem Sound.accounts (ha : a.Sound a.frames) : a.Accounts where
  own := counter?_unique ha
  count := usageCount_eq_counter a
  inEffect := usageCount_eq ha
  asked := by
    rintro s t key name rfl
    exact usage_asked s t key name
  laying := fun _ _ _ hp => opening_counters ha hp

/-- A name has one counter in a realm, for good: all chains that entries ever make for it,
all calls for the counter and the count of the name mean this one, on whichever thread, level
and stack. When the realm ends the counter reads zero, and no later realm uses it. -/
theorem counters_shared (v : Option Log.Verbosity) (before after : List Happening)
    (h : Happening) (hl : (Arena.new v).Orderly (before ++ h :: after)) :
    let a := (Arena.new v).through before
    let b := a.happen h
    let c := b.through after
    (∀ j, a.store.chains.size ≤ j.number → j.number < b.store.chains.size →
      ∃ t key types, h = .act t (.enter key types) ∧
        Fate key (c.store.chain j).name (c.store.chain j).counter after c) ∧
    (∀ t key name, h = .act t (.nameUsage key name) →
      ∃ k, (a.step t (.nameUsage key name)).1 = .counter k ∧ Fate key name k after c) ∧
    c.Accounts := by
  intro a b c
  obtain ⟨hbefore, hnow, hafter⟩ := orderly_append.1 hl
  have ha : a.Sound a.frames := sound_through (sound_new v) hbefore
  have hb : b.Sound b.frames := sound_happen ha hnow
  refine ⟨fun j hj hj' => ?_, ?_, (sound_through hb hafter).accounts⟩
  · obtain ⟨t, key, types, he, hk⟩ := chain_made ha hnow hj hj'
    have hsame : c.store.chain j = b.store.chain j := (keeps_through hb hafter).frame hj'
    rw [hsame]
    exact ⟨t, key, types, he, fate_through hb hafter hk⟩
  · rintro t key name rfl
    obtain ⟨-, -, k, hend, hk⟩ := mints_nameUsage ha t key name
    exact ⟨k, hend, fate_through hb hafter hk⟩

def spent : List Happening :=
  [.act 0 (.createRealm 0 { releaseIdle := true }), .act 0 (.register "Base" ⟨0⟩),
   .act 0 (.declare ⟨1⟩ ⟨"f", [⟨1⟩], true, true, none⟩), .act 0 (.enter 0 [⟨1⟩]), .act 0 .leave]

/-- Another thread is inside of a scope, and then the realm gives way to a new one. -/
def replaced : List Happening :=
  [.act 0 (.enter 0 [⟨1⟩]), .act 0 .leave, .act 1 .leave, .act 0 (.createRealm 0 {}),
   .act 0 (.enter 0 [⟨1⟩])]

theorem counters_replaced :
    let b := ((Arena.new none).through spent).happen (.act 1 (.enter 0 [⟨1⟩]))
    let c := b.through (replaced.take 1)
    let d := b.through replaced
    (c.usageCount 0 "f" = 2 ∧ c.store.usage ⟨1⟩ = c.usageCount 0 "f") ∧
      d.usageCount 0 "f" = 1 ∧ d.store.usage ⟨1⟩ = 0 := by
  intro b c d
  have hname : (c.store.chain ⟨1⟩).name = "f" := by decide +kernel
  obtain ⟨hc, -⟩ := counters_shared none spent (replaced.take 1) (.act 1 (.enter 0 [⟨1⟩]))
    (by decide +kernel)
  obtain ⟨hd, -⟩ := counters_shared none spent replaced (.act 1 (.enter 0 [⟨1⟩]))
    (by decide +kernel)
  obtain ⟨t, key, types, he, hlives⟩ := hc ⟨1⟩ (by decide +kernel) (by decide +kernel)
  obtain ⟨t', key', types', he', hretires⟩ := hd ⟨1⟩ (by decide +kernel) (by decide +kernel)
  cases he
  cases he'
  have hsame := (hlives.lives (by decide +kernel)).2
  rw [show ((b.through (replaced.take 1)).store.chain ⟨1⟩).name = "f" from hname] at hsame
  exact ⟨⟨by decide +kernel, hsame.symm⟩, by decide +kernel,
    (hretires.retires (by decide +kernel)).zero⟩

end Arena

end ScopedMethods

import ScopedMethods.Arena
import ScopedMethods.Proofs.Scoping

/-!
# Sound arenas

In a sound arena every realm keeps its books, no two realms share a counter,
and the level of a thread in a realm is the number of scopes of the realm that
the thread is inside of. A shift is what an act of one thread may do to all of
this; other threads see what they saw.
-/

set_option autoImplicit false

namespace ScopedMethods

theorem Realm.Sound.elsewhere {r : Realm} {s s' : Store} (hr : r.Sound s) (hk : s.Keeps s')
    (hs : s.counters.size ≤ s'.counters.size)
    (hc : ∀ {n : String} {k : CounterId}, r.ledger.counters.get? n = some k →
      s'.counter k = s.counter k) : r.Sound s' := by
  have hl : r.ledger.Sound s' :=
    ⟨fun hn => (hr.ledger.bounded hn).trans_le hs, hr.ledger.injective⟩
  have hcount : ∀ n, r.usageCount s' n = r.usageCount s n := by
    intro n
    simp only [usageCount, Ledger.count]
    cases hn : r.ledger.counters.get? n with
    | none => rfl
    | some k => exact hc hn
  exact
    { custody := hr.custody, ids := hr.ids, live := hr.live, limit := hr.limit
      bench := hr.bench.keeps hk hl (fun hn => hn) hcount rfl }

theorem Realm.sound_new (id : Nat) (o : Options) (s : Store) : (Realm.new id o).Sound s where
  custody := Custody.Sound.new _
  bench := Bench.sound_empty s id
  ids := fun h => nomatch h
  live := fun _ => rfl
  limit := fun h => nomatch h

namespace Arena

def frames (a : Arena) (t : Nat) : List Frame := (a.thread t).frames

def outlook (a : Arena) (t key : Nat) : Outlook :=
  (a.realm? key).elim Outlook.idle fun r => r.outlook a.store t

def inEffect (a : Arena) (key : Nat) (name : String) : Nat :=
  (a.realm? key).elim 0 fun r => r.inEffect a.store name

def openScopes (a : Arena) (key : Nat) : Nat := (a.realm? key).elim 0 Realm.openScopes

/-- The options of a realm, also of one that is made at its first mention. -/
def options (a : Arena) (key : Nat) : Options := (a.realm? key).elim {} Realm.options

def counter? (a : Arena) (key : Nat) (name : String) : Option CounterId :=
  (a.realm? key).bind fun r => r.ledger.counters.get? name

def depthIn (key : Nat) (fs : List Frame) : Nat := fs.countP (·.realm = key)

/-- An arena in which each thread is inside of the given scopes. -/
structure Sound (a : Arena) (F : Nat → List Frame) : Prop where
  realms : ∀ {key : Nat} {r : Realm}, a.realm? key = some r → r.Sound a.store
  apart : ∀ {i j : Nat} {r q : Realm}, i ≠ j → a.realm? i = some r → a.realm? j = some q →
    ∀ {n m : String} {k : CounterId}, r.ledger.counters.get? n = some k →
      q.ledger.counters.get? m ≠ some k
  framed : ∀ {t : Nat} {f : Frame}, f ∈ F t →
    ∃ r, a.realm? f.realm = some r ∧ r.custody.held? t = some f.stack
  depth : ∀ t key, (a.outlook t key).level.toNat = depthIn key (F t)

structure Books (a a' : Arena) : Prop where
  size : a.store.counters.size ≤ a'.store.counters.size
  spare : ∀ {k : CounterId}, k.number < a.store.counters.size →
    (∀ key n, a.counter? key n ≠ some k) → a'.store.counter k = a.store.counter k
  fresh : ∀ {key : Nat} {n : String} {k : CounterId}, a'.counter? key n = some k →
    a.counter? key n = some k ∨ a.store.counters.size ≤ k.number

/-- What an act of one thread does to what is seen and counted. -/
structure Shift (t : Nat) (a a' : Arena) : Prop where
  store : a.store.Keeps a'.store
  books : Books a a'
  others : ∀ {u : Nat}, u ≠ t → ∀ key, a'.outlook u key = a.outlook u key
  inEffect : ∀ key name, a'.inEffect key name + (a.outlook t key).weight name =
    a.inEffect key name + (a'.outlook t key).weight name
  openScopes : ∀ key, a'.openScopes key + (a.outlook t key).level.toNat =
    a.openScopes key + (a'.outlook t key).level.toNat

structure Still (t : Nat) (a a' : Arena) : Prop where
  shift : Shift t a a'
  same : ∀ key, a'.outlook t key = a.outlook t key

variable {a a' a₁ : Arena} {F F' : Nat → List Frame} {t u key : Nat} {r r' : Realm} {s' : Store}

theorem Books.refl (a : Arena) : Books a a := ⟨le_refl _, fun _ _ => rfl, Or.inl⟩

theorem Books.trans (h : Books a a₁) (h' : Books a₁ a') : Books a a' where
  size := h.size.trans h'.size
  spare := by
    intro k hk hn
    rw [h'.spare (hk.trans_le h.size), h.spare hk hn]
    intro key n hkn
    rcases h.fresh hkn with hkn | hge
    · exact hn key n hkn
    · omega
  fresh := by
    intro key n k hn
    rcases h'.fresh hn with hn | hge
    · exact h.fresh hn
    · exact Or.inr (h.size.trans hge)

theorem Shift.refl (t : Nat) (a : Arena) : Shift t a a :=
  ⟨.refl _, .refl a, fun _ _ => rfl, fun _ _ => rfl, fun _ => rfl⟩

theorem Shift.trans (h : Shift t a a₁) (h' : Shift t a₁ a') : Shift t a a' where
  store := h.store.trans h'.store
  books := h.books.trans h'.books
  others := fun hu key => (h'.others hu key).trans (h.others hu key)
  inEffect := by
    intro key name
    have h1 := h.inEffect key name
    have h2 := h'.inEffect key name
    omega
  openScopes := by
    intro key
    have h1 := h.openScopes key
    have h2 := h'.openScopes key
    omega

theorem Still.refl (t : Nat) (a : Arena) : Still t a a := ⟨.refl t a, fun _ => rfl⟩

theorem Still.trans (h : Still t a a₁) (h' : Still t a₁ a') : Still t a a' :=
  ⟨h.shift.trans h'.shift, fun key => (h'.same key).trans (h.same key)⟩

theorem outlook_none (h : a.realm? key = none) (t : Nat) : a.outlook t key = Outlook.idle := by
  rw [outlook, h]
  rfl

theorem outlook_some (h : a.realm? key = some r) (t : Nat) :
    a.outlook t key = r.outlook a.store t := by
  rw [outlook, h]
  rfl

theorem counter?_none (h : a.realm? key = none) (name : String) : a.counter? key name = none := by
  rw [counter?, h]
  rfl

theorem counter?_some (h : a.realm? key = some r) (name : String) :
    a.counter? key name = r.ledger.counters.get? name := by
  rw [counter?, h]
  rfl

theorem realm?_setRealm (k : Nat) :
    (a.setRealm key r s').realm? k = if key = k then some r else a.realm? k :=
  Slots.get?_set key k _ _

theorem counter?_setRealm (k : Nat) (name : String) :
    (a.setRealm key r s').counter? k name =
      if key = k then r.ledger.counters.get? name else a.counter? k name := by
  rw [counter?, realm?_setRealm]
  split <;> rfl

theorem Sound.idle (ha : a.Sound F) (h : (a.outlook t key).level = 0) :
    a.outlook t key = Outlook.idle := by
  cases hr : a.realm? key with
  | none => exact outlook_none hr t
  | some r =>
    rw [outlook_some hr] at h ⊢
    exact (ha.realms hr).idle h

theorem outlook_setRealm (u : Nat) : (a.setRealm key r' s').outlook u key = r'.outlook s' u :=
  outlook_some ((realm?_setRealm key).trans (if_pos rfl)) u

/-- Work in one realm is not seen in another. -/
theorem Sound.outlook_elsewhere (ha : a.Sound F) (hs : a.store.Keeps s') {k : Nat} (hk : k ≠ key)
    (u : Nat) : (a.setRealm key r' s').outlook u k = a.outlook u k := by
  have hget : (a.setRealm key r' s').realm? k = a.realm? k :=
    (realm?_setRealm k).trans (if_neg (Ne.symm hk))
  cases hq : a.realm? k with
  | none => rw [outlook_none hq, outlook_none (hget.trans hq)]
  | some q =>
    rw [outlook_some hq, outlook_some (hget.trans hq)]
    exact (ha.realms hq).outlook_keeps hs rfl fun _ _ => rfl

theorem books_setRealm (hr : a.realm? key = some r)
    (hb : Ledger.Extends a.store r.ledger s' r'.ledger) : Books a (a.setRealm key r' s') where
  size := hb.size
  spare := by
    intro k hk hn
    apply hb.spare hk
    intro n
    rw [← counter?_some hr]
    exact hn key n
  fresh := by
    intro i n k hn
    rw [counter?_setRealm] at hn
    split at hn
    · rename_i hi
      rw [← hi, counter?_some hr]
      exact hb.fresh hn
    · exact Or.inl hn

theorem shift_setRealm (ha : a.Sound F) (hr : a.realm? key = some r)
    (hm : Realm.Move t r a.store r' s') :
    Shift t a (a.setRealm key r' s') ∧
      (∀ k, k ≠ key → (a.setRealm key r' s').outlook t k = a.outlook t k) ∧
      (a.setRealm key r' s').outlook t key = r'.outlook s' t := by
  have hout : ∀ u k, k ≠ key → (a.setRealm key r' s').outlook u k = a.outlook u k :=
    fun u k hk => ha.outlook_elsewhere hm.store hk u
  have hself : (a.setRealm key r' s').realm? key = some r' := by
    rw [realm?_setRealm, if_pos rfl]
  have hother : ∀ k, k ≠ key → (a.setRealm key r' s').realm? k = a.realm? k := by
    intro k hk
    rw [realm?_setRealm, if_neg (Ne.symm hk)]
  refine ⟨⟨hm.store, books_setRealm hr hm.books, ?_, ?_, ?_⟩, hout t, outlook_setRealm t⟩
  · intro u hu k
    by_cases hk : k = key
    · subst hk
      rw [outlook_setRealm, outlook_some hr, hm.others hu]
    · exact hout u k hk
  · intro k name
    by_cases hk : k = key
    · subst hk
      rw [outlook_setRealm, outlook_some hr, inEffect, inEffect, hself, hr]
      exact hm.inEffect name
    · rw [hout t k hk, inEffect, inEffect, hother k hk]
      cases hq : a.realm? k with
      | none => rfl
      | some q => exact congrArg (· + _) ((ha.realms hq).inEffect_keeps hm.store name)
  · intro k
    by_cases hk : k = key
    · subst hk
      rw [outlook_setRealm, outlook_some hr, openScopes, openScopes, hself, hr]
      exact hm.openScopes
    · rw [hout t k hk, openScopes, openScopes, hother k hk]

theorem Sound.apart_move (ha : a.Sound F) (hr : a.realm? key = some r)
    (hm : Realm.Move t r a.store r' s') {k : Nat} {q : Realm} (hk : key ≠ k)
    (hq : a.realm? k = some q) {n m : String} {c : CounterId}
    (hn : r'.ledger.counters.get? n = some c) : q.ledger.counters.get? m ≠ some c := by
  intro hc
  rcases hm.books.fresh hn with hn | hge
  · exact ha.apart hk hr hq hn hc
  · have hlt := (ha.realms hq).ledger.bounded hc
    omega

/-- The arena stays sound if the scopes that the moving thread is then inside of fit. -/
theorem sound_setRealm (ha : a.Sound F) (hr : a.realm? key = some r)
    (hm : Realm.Move t r a.store r' s') (hF : ∀ u, u ≠ t → F' u = F u)
    (hkept : ∀ f ∈ F' t, f.realm ≠ key → f ∈ F t)
    (hheld : ∀ f ∈ F' t, f.realm = key → r'.custody.held? t = some f.stack)
    (hcount : ∀ k, k ≠ key → depthIn k (F' t) = depthIn k (F t))
    (hlevel : (r'.outlook s' t).level.toNat = depthIn key (F' t)) :
    (a.setRealm key r' s').Sound F' where
  realms := by
    intro k q hq
    rcases Slots.get?_set_cases hq with ⟨rfl, rfl⟩ | ⟨hk, hq⟩
    · exact hm.sound
    · apply (ha.realms hq).elsewhere hm.store hm.books.size
      intro n c hn
      apply hm.books.spare ((ha.realms hq).ledger.bounded hn)
      intro m hc
      exact ha.apart hk hr hq hc hn
  apart := by
    intro i j p q hij hp hq n m c hn hc
    rcases Slots.get?_set_cases hp with ⟨rfl, rfl⟩ | ⟨hi, hp⟩ <;>
      rcases Slots.get?_set_cases hq with ⟨rfl, rfl⟩ | ⟨hj, hq⟩
    · exact hij rfl
    · exact ha.apart_move hr hm hj hq hn hc
    · exact ha.apart_move hr hm hi hp hc hn
    · exact ha.apart hij hp hq hn hc
  framed := by
    intro u f hf
    rw [realm?_setRealm]
    by_cases hk : key = f.realm
    · refine ⟨r', if_pos hk, ?_⟩
      by_cases hu : u = t
      · subst hu
        exact hheld f hf hk.symm
      · rw [hF u hu] at hf
        obtain ⟨q, hq, hid⟩ := ha.framed hf
        rw [← hk, hr] at hq
        rw [hm.held hu, Option.some.inj hq]
        exact hid
    · rw [if_neg hk]
      by_cases hu : u = t
      · subst hu
        exact ha.framed (hkept f hf (Ne.symm hk))
      · rw [hF u hu] at hf
        exact ha.framed hf
  depth := by
    intro u k
    obtain ⟨hshift, hout, hnew⟩ := shift_setRealm ha hr hm
    by_cases hu : u = t
    · subst hu
      by_cases hk : k = key
      · subst hk
        rw [hnew, hlevel]
      · rw [hout k hk, hcount k hk, ha.depth]
    · rw [hshift.others hu, hF u hu, ha.depth]

end Arena

end ScopedMethods

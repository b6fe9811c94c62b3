import ScopedMethods.Proofs.Moves
import ScopedMethods.Proofs.Offering

/-!
# Making, finding and giving up stacks

What the custody of a realm does for a thread, with the stacks of the realm.
Finding or making a stack changes nothing that the thread sees; a reclaim
request takes an idle stack only.
-/

set_option autoImplicit false

namespace ScopedMethods.Realm

variable {r : Realm} {c d : Custody} {g : Grounds} {s : Store} {t : Caller} {id : Nat}
  {st : ScopeStack}

theorem settle_self (r : Realm) (s : Store) : r.settle r.custody (r.grounds s) = r := rfl

theorem onStack_eq (h : g.stackTable.get? id = some st) (f : Site → Site) :
    g.onStack id f =
      { g with
        store := (f ⟨g.store, g.ledger, st⟩).store
        ledger := (f ⟨g.store, g.ledger, st⟩).ledger
        stackTable := g.stackTable.set id (f ⟨g.store, g.ledger, st⟩).stack } := by
  rw [Grounds.onStack, h]

theorem move_destroy (hr : (r.settle c g).Sound g.store) (hid : c.held? t.thread = some id)
    (ho : d.closed = c.closed) (hc : d.register = (c.unregister id).register)
    (hh : ∀ u, d.held? u = if t.thread = u then none else c.held? u) :
    Move t.thread (r.settle c g) g.store (r.settle d (g.destroy t id)) (g.destroy t id).store := by
  obtain ⟨st, hst⟩ := hr.stack_of_held hid
  have hw := hr.sites hst
  have hs := Site.shed_destroy t hw
  obtain ⟨h1, hout⟩ := move_turn hr hid hst (.of_shed hs)
  have h0 := Site.level_destroy t hw
  have h2 := move_drop h1.sound hid (by rw [hout]; exact h0) ho hc hh
  rw [Grounds.destroy, onStack_eq hst]
  exact h1.trans h2

theorem quiet_release (hr : (r.settle c g).Sound g.store) (hid : c.held? t.thread = some id)
    (h0 : ((r.settle c g).outlook g.store t.thread).level = 0) (cause : ReleaseCause) :
    Quiet t.thread (r.settle c g) g.store
        (r.settle (c.release r.keeper t id cause g).1 (c.release r.keeper t id cause g).2)
        (c.release r.keeper t id cause g).2.store ∧
      (c.release r.keeper t id cause g).1.held? t.thread = none := by
  have hreg : c.registered id = true := hr.custody.registered_of_held hid
  have hn := (Quiet.refl hr t.thread).note t (.stateReleased c.name id t.thread cause)
  have hh : ∀ u, ((c.unregister id).setContext t.thread ⟨none, c.pending t.thread⟩).held? u =
      if t.thread = u then none else c.held? u := fun _ => Custody.held?_setContext _
  have hnone : ((c.unregister id).setContext t.thread ⟨none, c.pending t.thread⟩).held? t.thread =
      none := by rw [hh, if_pos rfl]
  have hm := move_destroy (r := r) (c := c)
    (d := (c.unregister id).setContext t.thread ⟨none, c.pending t.thread⟩)
    (g := g.note t (.stateReleased c.name id t.thread cause)) (t := t) hn.move.sound hid rfl rfl hh
  rw [Custody.release, hreg]
  refine ⟨⟨hn.move.trans hm, ?_, fun h => absurd h0 h⟩, hnone⟩
  rw [hr.idle h0]
  exact outlook_none hnone

theorem levelOf_eq (hr : (r.settle c g).Sound g.store) (hid : c.held? t.thread = some id) :
    g.levelOf id = ((r.settle c g).outlook g.store t.thread).level := by
  obtain ⟨st, hst⟩ := hr.stack_of_held hid
  have hg : g.stackTable.get? id = some st := hst
  rw [outlook_some hid hst, Grounds.levelOf, hg]
  rfl

theorem quiet_honor (hr : (r.settle c g).Sound g.store) (hid : c.held? t.thread = some id) :
    Quiet t.thread (r.settle c g) g.store
      (r.settle (c.honor r.keeper t id g).1 (c.honor r.keeper t id g).2)
      (c.honor r.keeper t id g).2.store := by
  have hh : ∀ u, (c.setContext t.thread ⟨some id, false⟩).held? u = c.held? u :=
    Custody.held?_setContext_same hid
  have hc : (c.setContext t.thread ⟨some id, false⟩).Sound := hr.custody.same rfl rfl hh
  have hq := quiet_custody hr hc hh t.thread
  have hid' : (c.setContext t.thread ⟨some id, false⟩).held? t.thread = some id := by
    rw [hh, hid]
  have hlevel := levelOf_eq (r := r) hq.move.sound hid'
  rw [Custody.honor]
  by_cases h0 : g.levelOf id = 0
  · have hk : r.keeper.reclaimable g id = true := decide_eq_true h0
    simp only [hk, if_true]
    exact hq.trans (quiet_release (r := r) hq.move.sound hid' (hlevel.symm.trans h0) _).1
  · have hk : r.keeper.reclaimable g id = false := decide_eq_false h0
    simp only [hk]
    exact hq.note t _

theorem quiet_peek (hr : (r.settle c g).Sound g.store) (t : Caller) :
    Quiet t.thread (r.settle c g) g.store
        (r.settle (c.peek r.keeper t g).2.1 (c.peek r.keeper t g).2.2)
        (c.peek r.keeper t g).2.2.store ∧
      (c.peek r.keeper t g).1 = (c.peek r.keeper t g).2.1.held? t.thread := by
  rw [Custody.peek]
  cases hid : c.held? t.thread with
  | none => exact ⟨.refl hr _, hid.symm⟩
  | some id =>
    by_cases hp : c.pending t.thread = true
    · simp only [hp, if_true]
      exact ⟨quiet_honor hr hid, trivial⟩
    · simp only [hp]
      exact ⟨.refl hr _, hid.symm⟩

def housed (c : Custody) (t : Caller) (id : Nat) : Custody :=
  let c := (c.setContext t.thread ⟨none, false⟩).setContext t.thread ⟨some id, false⟩
  { c with register := ⟨id, t.thread, t.nickname⟩ :: c.register }

theorem house_eq (r : Realm) (c : Custody) (g : Grounds) (t : Caller) :
    c.house r.keeper t g =
      (.ok g.nextStack, housed c t g.nextStack,
        (Grounds.onStack g.nextStack (Site.created t)
          { g with
            stackTable := g.stackTable.set g.nextStack
              (ScopeStack.new g.nextStack r.options.maxDepth)
            nextStack := g.nextStack + 1 }).note t
          (.stateAdded c.name g.nextStack t.thread t.nickname)) := rfl

theorem quiet_house (hr : (r.settle c g).Sound g.store) (hn : c.held? t.thread = none) :
    Quiet t.thread (r.settle c g) g.store
        (r.settle (c.house r.keeper t g).2.1 (c.house r.keeper t g).2.2)
        (c.house r.keeper t g).2.2.store ∧
      (c.house r.keeper t g).1 = .ok g.nextStack ∧
      (c.house r.keeper t g).2.1.held? t.thread = some g.nextStack := by
  have hh : ∀ u, (housed c t g.nextStack).held? u =
      if t.thread = u then some g.nextStack else c.held? u := by
    intro u
    show ((c.setContext t.thread ⟨none, false⟩).setContext t.thread _).held? u = _
    rw [Custody.held?_setContext, Custody.held?_setContext]
    split <;> rfl
  have hself : (housed c t g.nextStack).held? t.thread = some g.nextStack := by
    rw [hh, if_pos rfl]
  have hq := quiet_add hr hn (c := housed c t g.nextStack) rfl rfl hh
  have hget : (g.stackTable.set g.nextStack (ScopeStack.new g.nextStack r.options.maxDepth)).get?
      g.nextStack = some (ScopeStack.new g.nextStack r.options.maxDepth) :=
    Slots.get?_set_self _ _ _
  have ht := (quiet_turn hq.move.sound hself hget
    ((Site.Turn.refl (hq.move.sound.sites hget)).note t (.stackCreated g.nextStack t.thread))
    rfl).note t (.stateAdded c.name g.nextStack t.thread t.nickname)
  rw [house_eq, onStack_eq hget]
  exact ⟨hq.trans ht, rfl, hself⟩

theorem quiet_obtain (hr : (r.settle c g).Sound g.store) (t : Caller) :
    Quiet t.thread (r.settle c g) g.store
        (r.settle (c.obtain r.keeper t g).2.1 (c.obtain r.keeper t g).2.2)
        (c.obtain r.keeper t g).2.2.store ∧
      ∃ id, (c.obtain r.keeper t g).1 = .ok id ∧
        (c.obtain r.keeper t g).2.1.held? t.thread = some id := by
  obtain ⟨hq, he⟩ := quiet_peek hr t
  rw [Custody.obtain]
  generalize c.peek r.keeper t g = p at hq he
  obtain ⟨found, c₁, g₁⟩ := p
  cases found with
  | some id => exact ⟨hq, id, rfl, he.symm⟩
  | none =>
    obtain ⟨hq', h1, h2⟩ := quiet_house (r := r) hq.move.sound he.symm
    exact ⟨hq.trans hq', g₁.nextStack, h1, h2⟩

theorem quiet_surrender (hr : (r.settle c g).Sound g.store)
    (h0 : ((r.settle c g).outlook g.store t.thread).level = 0) :
    Quiet t.thread (r.settle c g) g.store
      (r.settle (c.surrender r.keeper t g).2.1 (c.surrender r.keeper t g).2.2)
      (c.surrender r.keeper t g).2.2.store := by
  rw [Custody.surrender]
  cases hid : c.held? t.thread with
  | none => exact .refl hr _
  | some id => exact (quiet_release hr hid h0 _).1

/-- A thread that ends leaves no stack behind, whatever scopes were open on it. -/
theorem move_exit (hr : (r.settle c g).Sound g.store) (t : Caller) :
    Move t.thread (r.settle c g) g.store
        (r.settle (c.exit r.keeper t g).1 (c.exit r.keeper t g).2) (c.exit r.keeper t g).2.store ∧
      (c.exit r.keeper t g).1.held? t.thread = none := by
  rw [Custody.exit]
  cases hid : c.held? t.thread with
  | none =>
    have hh : ∀ u, ({ c with contexts := c.contexts.erase t.thread } : Custody).held? u =
        c.held? u := Custody.held?_erase_none hid
    have hc : ({ c with contexts := c.contexts.erase t.thread } : Custody).Sound :=
      hr.custody.same rfl rfl hh
    exact ⟨(quiet_custody hr hc hh t.thread).move, (hh _).trans hid⟩
  | some id =>
    have hreg : c.registered id = true := hr.custody.registered_of_held hid
    have hopen : c.closed = false := hr.custody.isOpen
    have hh : ∀ u, ({ c.unregister id with contexts := c.contexts.erase t.thread } :
        Custody).held? u = if t.thread = u then none else c.held? u :=
      fun _ => Custody.held?_erase
    have hm := move_destroy (r := r) hr hid (d :=
      { c.unregister id with contexts := c.contexts.erase t.thread }) rfl rfl hh
    simp only [hreg, hopen, Bool.not_false, Bool.and_self, if_true]
    exact ⟨hm, (hh _).trans (if_pos rfl)⟩

theorem quiet_requestReclaim (hr : r.Sound s) (t : Caller) :
    Quiet t.thread r s (r.requestReclaim t s).2.1 (r.requestReclaim t s).2.2 := by
  obtain ⟨hc, hh⟩ := hr.custody.flagAll
  exact (quiet_custody hr hc hh t.thread).note t _

theorem peek_spec (hr : r.Sound s) (t : Caller) :
    Quiet t.thread r s (r.peek t s).2.1 (r.peek t s).2.2 ∧
      (r.peek t s).1 =
        ((r.peek t s).2.1.custody.held? t.thread).bind (r.peek t s).2.1.stack? := by
  obtain ⟨hq, he⟩ := quiet_peek (r := r) (c := r.custody) (g := r.grounds s) hr t
  refine ⟨hq, ?_⟩
  simp only [peek, he]
  rfl

theorem level_of_peek (hr : r.Sound s) (t : Caller) :
    (r.peek t s).1.elim 0 ScopeStack.level = (r.outlook s t.thread).level := by
  obtain ⟨hq, he⟩ := peek_spec hr t
  rw [← hq.same, he, outlook]
  cases ((r.peek t s).2.1.custody.held? t.thread).bind (r.peek t s).2.1.stack? <;> rfl

/-- What is looked up is the chain on top of the lineage that the thread sees. -/
theorem lookup_spec (hr : r.Sound s) (t : Caller) (name : String) :
    Quiet t.thread r s (r.lookup t name s).2.1 (r.lookup t name s).2.2 ∧
      (r.lookup t name s).1 = ((r.outlook s t.thread).lineage name).ids.head? := by
  obtain ⟨hq, he⟩ := peek_spec hr t
  rw [← hq.same, lookup]
  generalize r.peek t s = p at hq he
  obtain ⟨found, r₁, s₁⟩ := p
  cases found with
  | none =>
    refine ⟨hq, ?_⟩
    simp only at he ⊢
    rw [outlook, ← he]
    rfl
  | some st =>
    refine ⟨hq, ?_⟩
    obtain ⟨id, hid, hst⟩ := Option.bind_eq_some_iff.1 he.symm
    simp only
    rw [outlook_some hid hst]
    split
    · rename_i h0
      rw [Site.outlook_idle (hq.move.sound.sites hst) h0]
      rfl
    · exact ScopeStack.chain?_eq_head st s₁ name

theorem currentLevel_spec (hr : r.Sound s) (t : Caller) :
    Quiet t.thread r s (r.currentLevel t s).2.1 (r.currentLevel t s).2.2 ∧
      (r.currentLevel t s).1 = (r.outlook s t.thread).level :=
  ⟨(peek_spec hr t).1, level_of_peek hr t⟩

theorem level_le_openScopes (hr : r.Sound s) (t : Nat) :
    (r.outlook s t).level.toNat ≤ r.openScopes := by
  cases hid : r.custody.held? t with
  | none =>
    rw [outlook_none hid]
    exact Nat.zero_le _
  | some id =>
    obtain ⟨st, hst⟩ := hr.stack_of_held hid
    rw [outlook_some hid hst]
    exact Slots.le_total (f := fun x : ScopeStack => x.level.toNat) hst

theorem activeHere_eq (hr : r.Sound s) (t : Caller) :
    (r.activeHere t s).1 = (r.ledger.active != 0 && (r.outlook s t.thread).level != 0) := by
  rw [activeHere]
  split
  · rename_i h0
    rw [h0]
    rfl
  · rename_i h0
    rw [bne_iff_ne.2 h0, Bool.true_and]
    exact congrArg (· != 0) (currentLevel_spec hr t).2

/-- The common tally does not show through: where it is zero, so is the level. -/
theorem activeHere_spec (hr : r.Sound s) (t : Caller) :
    Quiet t.thread r s (r.activeHere t s).2.1 (r.activeHere t s).2.2 ∧
      (r.openScopes < 2 ^ 64 →
        (r.activeHere t s).1 = ((r.outlook s t.thread).level != 0)) := by
  rw [activeHere]
  by_cases h0 : r.ledger.active = 0
  -- The tally wraps, so zero means no open scope only below the bound.
  · simp only [h0, if_true]
    refine ⟨.refl hr _, fun hb => ?_⟩
    have ha := hr.active
    rw [h0] at ha
    have hz : r.openScopes = 0 := by
      have h := congrArg UInt64.toNat ha
      rw [UInt64.toNat_ofNat_of_lt' (by exact hb)] at h
      exact h.symm
    have hle := level_le_openScopes hr t.thread
    have hlevel : (r.outlook s t.thread).level = 0 :=
      UInt32.toNat_inj.1 (by rw [UInt32.toNat_zero]; omega)
    simp [hlevel]
  · simp only [h0, if_false]
    obtain ⟨hq, hl⟩ := currentLevel_spec hr t
    exact ⟨hq, fun _ => by rw [hl]⟩

theorem quiet_nameUsage (hr : r.Sound s) (t : Caller) (name : String) :
    Quiet t.thread r s (r.nameUsage t name s).2.1 (r.nameUsage t name s).2.2 := by
  have hu := Ledger.used t name hr.ledger
  have hk : s.Keeps (r.ledger.usage t name s).2.1 :=
    ⟨le_of_eq (by rw [hu.chains]), fun _ => by simp [Store.chain, hu.chains], hu.verbosity⟩
  rw [nameUsage]
  generalize r.ledger.usage t name s = p at hu hk
  obtain ⟨k, s', l⟩ := p
  have hout : ∀ u, ({ r with ledger := l } : Realm).outlook s' u = r.outlook s u := fun u =>
    hr.outlook_keeps hk rfl fun _ _ => rfl
  have heff : ∀ n, ({ r with ledger := l } : Realm).inEffect s' n = r.inEffect s n :=
    hr.inEffect_keeps hk
  refine ⟨?_, hout _, fun _ => rfl⟩
  exact
    { sound :=
        { custody := hr.custody, ids := hr.ids, live := hr.live, limit := hr.limit
          bench := hr.bench.keeps hk hu.sound hu.extends_.kept hu.count hu.active }
      options := rfl
      store := hk
      books := hu.extends_
      held := fun _ => rfl
      others := fun _ => hout _
      inEffect := fun n => by rw [hout, heff]
      openScopes := by rw [hout]; rfl }

theorem threadExit_spec (hr : r.Sound s) (t : Caller) :
    Move t.thread r s (r.threadExit t s).1 (r.threadExit t s).2 ∧
      (r.threadExit t s).1.outlook (r.threadExit t s).2 t.thread = Outlook.idle := by
  obtain ⟨hm, hn⟩ := move_exit (r := r) (c := r.custody) (g := r.grounds s) hr t
  exact ⟨hm, outlook_none hn⟩

def Resting (g : Grounds) : Prop :=
  ∀ {id : Nat} {st : ScopeStack}, g.stackTable.get? id = some st → st.level = 0

theorem resting_destroy (h : Resting g) (t : Caller) (id : Nat) :
    Resting (g.destroy t id) ∧ g.store.Same (g.destroy t id).store := by
  rw [Grounds.destroy]
  cases hst : g.stackTable.get? id with
  | none =>
    rw [Grounds.onStack, hst]
    refine ⟨fun {i x} hx => ?_, .refl _⟩
    exact h (Slots.get?_of_erase hx).2
  | some st =>
    have hd : Site.destroy t ⟨g.store, g.ledger, st⟩ =
        (⟨g.store, g.ledger, st⟩ : Site).note t (.stackDestroyed st.id) := by
      have hl : st.level = 0 := h hst
      simp only [Site.destroy, hl, if_true]
    rw [onStack_eq hst, hd]
    refine ⟨fun {i x} hx => ?_, (Store.Same.refl _).note t _⟩
    obtain ⟨hne, hx⟩ := Slots.get?_of_erase hx
    exact h ((Slots.get?_set_ne hne _ _).symm.trans hx)

theorem resting_destroyAll (h : Resting g) (t : Caller) (rs : List Registration) :
    g.store.Same (rs.foldl (fun g q => g.destroy t q.state) g).store := by
  induction rs generalizing g with
  | nil => exact .refl _
  | cons q rs ih =>
    obtain ⟨h1, h2⟩ := resting_destroy h t q.state
    exact h2.trans (ih h1)

theorem same_noteAll (t : Caller) (e : Registration → Event) (rs : List Registration)
    (g : Grounds) :
    (rs.foldl (fun g q => g.note t (e q)) g).stackTable = g.stackTable ∧
      g.store.Same (rs.foldl (fun g q => g.note t (e q)) g).store := by
  induction rs generalizing g with
  | nil => exact ⟨rfl, .refl _⟩
  | cons q rs ih =>
    obtain ⟨h1, h2⟩ := ih (g.note t (e q))
    exact ⟨h1, ((Store.Same.refl _).note t (e q)).trans h2⟩

/-- A realm that no thread is in ends without a change to chains and counters. -/
theorem destroy_spec (hr : r.Sound s) (h0 : ∀ u, (r.outlook s u).level = 0) (t : Caller) :
    s.Same (r.destroy t s).2 := by
  have hrest : Resting (r.grounds s) := by
    intro id st hst
    obtain ⟨u, -, hu⟩ := hr.holder hst
    have h := h0 u
    rw [hu] at h
    exact h
  have hnote := ((Store.Same.refl s).note t
    (.realmClosing r.id r.ledger.active.toNat r.ledger.size)).note t
      (.custodyClosing r.custody.name)
  obtain ⟨h1, h2⟩ := same_noteAll t
    (fun q => .stateDeleted r.custody.name q.state q.owner q.nickname) r.custody.register
    (((r.grounds (s.note t (.realmClosing r.id r.ledger.active.toNat r.ledger.size)))).note t
      (.custodyClosing r.custody.name))
  refine (hnote.trans h2).trans (resting_destroyAll ?_ t r.custody.register)
  intro id st hst
  rw [h1] at hst
  exact hrest hst

end ScopedMethods.Realm

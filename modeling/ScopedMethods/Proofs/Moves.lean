import ScopedMethods.Proofs.Outlook

/-!
# Moves in a realm

The stacks of a realm are a bench, and each live stack is held by one thread.
Every move keeps this; it changes the tally and the counts by what the moving
thread sees change.
-/

set_option autoImplicit false

namespace ScopedMethods.Realm

def bench (r : Realm) (s : Store) : Bench Nat := ⟨s, r.ledger, r.stackTable⟩

def inEffect (r : Realm) (s : Store) (name : String) : Nat := (r.bench s).inEffect name

def openScopes (r : Realm) : Nat := Slots.total (fun st => st.level.toNat) r.stackTable

def outlook (r : Realm) (s : Store) (t : Nat) : Outlook :=
  ((r.custody.held? t).bind r.stack?).elim Outlook.idle fun st => ⟨st.level, st.lineage s⟩

structure Sound (r : Realm) (s : Store) : Prop where
  custody : r.custody.Sound
  bench : (r.bench s).Sound
  ids : ∀ {id : Nat} {st : ScopeStack}, r.stack? id = some st → id < r.nextStack
  live : ∀ id : Nat, (r.stack? id).isSome = r.custody.registered id
  limit : ∀ {id : Nat} {st : ScopeStack}, r.stack? id = some st → st.maxDepth = r.options.maxDepth

/-- What a thread does to a realm. -/
structure Move (t : Nat) (r : Realm) (s : Store) (r' : Realm) (s' : Store) : Prop where
  sound : r'.Sound s'
  options : r'.options = r.options
  store : s.Keeps s'
  books : Ledger.Extends s r.ledger s' r'.ledger
  held : ∀ {u : Nat}, u ≠ t → r'.custody.held? u = r.custody.held? u
  others : ∀ {u : Nat}, u ≠ t → r'.outlook s' u = r.outlook s u
  inEffect : ∀ name, r'.inEffect s' name + (r.outlook s t).weight name =
    r.inEffect s name + (r'.outlook s' t).weight name
  openScopes : r'.openScopes + (r.outlook s t).level.toNat =
    r.openScopes + (r'.outlook s' t).level.toNat

/-- A move that does not change what the thread sees; a stack with open scopes is kept. -/
structure Quiet (t : Nat) (r : Realm) (s : Store) (r' : Realm) (s' : Store) : Prop where
  move : Move t r s r' s'
  same : r'.outlook s' t = r.outlook s t
  pinned : (r.outlook s t).level ≠ 0 → r'.custody.held? t = r.custody.held? t

variable {r r' r₁ : Realm} {s s' s₁ : Store} {t u id : Nat} {st : ScopeStack}

theorem outlook_none (h : r.custody.held? t = none) : r.outlook s t = Outlook.idle := by
  simp [outlook, h]

theorem outlook_some (h : r.custody.held? t = some id) (hs : r.stack? id = some st) :
    r.outlook s t = (⟨s, r.ledger, st⟩ : Site).outlook := by
  simp only [outlook, h, Option.bind_some, hs, Option.elim]
  rfl

theorem Sound.stack_of_held (hr : r.Sound s) (h : r.custody.held? t = some id) :
    ∃ st, r.stack? id = some st := by
  have hl := hr.live id
  rw [hr.custody.registered_of_held h] at hl
  exact Option.isSome_iff_exists.1 hl

theorem Sound.holder (hr : r.Sound s) (hst : r.stack? id = some st) :
    ∃ u, r.custody.held? u = some id ∧ r.outlook s u = (⟨s, r.ledger, st⟩ : Site).outlook := by
  have hl := hr.live id
  rw [hst] at hl
  obtain ⟨u, hu⟩ := hr.custody.held_of_registered hl.symm
  exact ⟨u, hu, outlook_some hu hst⟩

theorem Sound.fresh (hr : r.Sound s) : r.stack? r.nextStack = none := by
  cases h : r.stack? r.nextStack with
  | none => rfl
  | some st => exact absurd (hr.ids h) (Nat.lt_irrefl _)

namespace Sound

theorem table (hr : r.Sound s) : r.stackTable.Distinct := hr.bench.table

theorem ledger (hr : r.Sound s) : r.ledger.Sound s := hr.bench.ledger

theorem sites (hr : r.Sound s) (h : r.stack? id = some st) : Site.Sound ⟨s, r.ledger, st⟩ :=
  hr.bench.sites h

theorem counted (hr : r.Sound s) (name : String) :
    r.usageCount s name = Int32.ofNat (r.inEffect s name) :=
  hr.bench.counted name

theorem active (hr : r.Sound s) : r.ledger.active = UInt64.ofNat r.openScopes := hr.bench.active

end Sound

theorem Sound.lineage_keeps (hr : r.Sound s) (hk : s.Keeps s') (hs : r.stack? id = some st) :
    st.lineage s' = st.lineage s :=
  Site.lineage_keeps (hr.sites hs) hk

theorem Sound.inEffect_keeps (hr : r.Sound s) (hk : s.Keeps s') (name : String) :
    r.inEffect s' name = r.inEffect s name :=
  hr.bench.inEffect_keeps hk r.ledger name

theorem Sound.chain_of_outlook (hr : r.Sound s) {name : String} {p : ChainId × Chain}
    (hp : p ∈ (r.outlook s t).lineage name) :
    s.chain p.1 = p.2 ∧ p.1.number < s.chains.size := by
  cases hid : r.custody.held? t with
  | none =>
    rw [outlook_none hid] at hp
    cases hp
  | some id =>
    obtain ⟨st, hst⟩ := hr.stack_of_held hid
    rw [outlook_some hid hst] at hp
    exact ⟨Site.chain_of_mem_lineage hp, (hr.sites hst).bounded name p hp⟩

theorem Sound.outlook_keeps (hr : r.Sound s) (hk : s.Keeps s')
    (hh : r'.custody.held? u = r.custody.held? u)
    (hs : ∀ id, r.custody.held? u = some id → r'.stack? id = r.stack? id) :
    r'.outlook s' u = r.outlook s u := by
  cases hu : r.custody.held? u with
  | none => rw [outlook_none hu, outlook_none (hh.trans hu)]
  | some id =>
    obtain ⟨st, hst⟩ := hr.stack_of_held hu
    rw [outlook_some hu hst, outlook_some (hh.trans hu) ((hs id hu).trans hst)]
    show (⟨st.level, st.lineage s'⟩ : Outlook) = ⟨st.level, st.lineage s⟩
    rw [hr.lineage_keeps hk hst]

theorem Move.refl (hr : r.Sound s) (t : Nat) : Move t r s r s :=
  ⟨hr, rfl, .refl s, .refl _ _, fun _ => rfl, fun _ => rfl, fun _ => rfl, rfl⟩

theorem Move.trans (h : Move t r s r₁ s₁) (h' : Move t r₁ s₁ r' s') : Move t r s r' s' where
  sound := h'.sound
  options := h'.options.trans h.options
  store := h.store.trans h'.store
  books := h.books.trans h'.books
  held := fun hu => (h'.held hu).trans (h.held hu)
  others := fun hu => (h'.others hu).trans (h.others hu)
  inEffect := by
    intro name
    have h1 := h.inEffect name
    have h2 := h'.inEffect name
    omega
  openScopes := by
    have h1 := h.openScopes
    have h2 := h'.openScopes
    omega

theorem Sound.note (h : r.Sound s) (t : Caller) (e : Event) : r.Sound (s.note t e) where
  custody := h.custody
  bench := h.bench.same ((Store.Same.refl s).note t e)
  ids := h.ids
  live := h.live
  limit := h.limit

theorem Move.note (h : Move t r s r' s') (c : Caller) (e : Event) :
    Move t r s r' (s'.note c e) :=
  ⟨h.sound.note c e, h.options, h.store.note c e,
    ⟨h.books.size, h.books.spare, h.books.kept, h.books.fresh⟩, h.held, h.others, h.inEffect,
    h.openScopes⟩

theorem Quiet.refl (hr : r.Sound s) (t : Nat) : Quiet t r s r s :=
  ⟨.refl hr t, rfl, fun _ => rfl⟩

theorem Quiet.trans (h : Quiet t r s r₁ s₁) (h' : Quiet t r₁ s₁ r' s') : Quiet t r s r' s' where
  move := h.move.trans h'.move
  same := h'.same.trans h.same
  pinned := by
    intro h0
    rw [h'.pinned (by rw [h.same]; exact h0), h.pinned h0]

theorem Quiet.note (h : Quiet t r s r' s') (c : Caller) (e : Event) :
    Quiet t r s r' (s'.note c e) :=
  ⟨h.move.note c e, h.same, h.pinned⟩

theorem quiet_custody (hr : r.Sound s) {c : Custody} (hc : c.Sound)
    (hh : ∀ u, c.held? u = r.custody.held? u) (t : Nat) :
    Quiet t r s { r with custody := c } s := by
  have hreg : ∀ id, c.registered id = r.custody.registered id := by
    intro id
    rw [Bool.eq_iff_iff]
    constructor
    · intro h
      obtain ⟨u, hu⟩ := hc.held_of_registered h
      exact hr.custody.registered_of_held ((hh u).symm.trans hu)
    · intro h
      obtain ⟨u, hu⟩ := hr.custody.held_of_registered h
      exact hc.registered_of_held ((hh u).trans hu)
  have hout : ∀ u, ({ r with custody := c } : Realm).outlook s u = r.outlook s u := fun u =>
    hr.outlook_keeps (.refl s) (hh u) fun _ _ => rfl
  refine ⟨?_, hout t, fun _ => hh t⟩
  exact
    { sound :=
        ⟨hc, hr.bench, hr.ids, fun id => (hr.live id).trans (hreg id).symm, hr.limit⟩
      options := rfl
      store := .refl s
      books := .refl _ _
      held := fun _ => hh _
      others := fun _ => hout _
      inEffect := fun name => by rw [hout]; rfl
      openScopes := by rw [hout]; rfl }

def withSite (r : Realm) (id : Nat) (w : Site) : Realm :=
  { r with ledger := w.ledger, stackTable := r.stackTable.set id w.stack }

theorem stack?_withSite (w : Site) (i : Nat) :
    (r.withSite id w).stack? i = if id = i then some w.stack else r.stack? i :=
  Slots.get?_set id i _ _

theorem withSite_withSite (w w' : Site) : (r.withSite id w).withSite id w' = r.withSite id w' := by
  simp only [withSite, Slots.set_set]

theorem Sound.turn (hr : r.Sound s) (hid : r.custody.held? t = some id)
    (hst : r.stack? id = some st) {w : Site} (hw : Site.Turn ⟨s, r.ledger, st⟩ w) :
    (r.withSite id w).Sound w.store where
  custody := hr.custody
  bench := hr.bench.put hst hw.work
  ids := by
    intro i x hx
    rcases Slots.get?_set_cases hx with ⟨rfl, -⟩ | ⟨-, hx⟩
    · exact hr.ids hst
    · exact hr.ids hx
  live := by
    intro i
    rw [stack?_withSite]
    split
    · rename_i he
      rw [← he]
      exact (hr.custody.registered_of_held hid).symm
    · exact hr.live i
  limit := by
    intro i x hx
    rcases Slots.get?_set_cases hx with ⟨-, rfl⟩ | ⟨-, hx⟩
    · rw [hw.maxDepth]
      exact hr.limit hst
    · exact hr.limit hx

/-- A thread takes a turn on its own stack. -/
theorem move_turn (hr : r.Sound s) (hid : r.custody.held? t = some id) (hst : r.stack? id = some st)
    {w : Site} (hw : Site.Turn ⟨s, r.ledger, st⟩ w) :
    Move t r s (r.withSite id w) w.store ∧ (r.withSite id w).outlook w.store t = w.outlook := by
  have hself : (r.withSite id w).stack? id = some w.stack := by
    rw [stack?_withSite, if_pos rfl]
  have hout : (r.withSite id w).outlook w.store t = w.outlook := by
    rw [outlook_some (r := r.withSite id w) hid hself]
    rfl
  have hold : r.outlook s t = (⟨s, r.ledger, st⟩ : Site).outlook := outlook_some hid hst
  refine ⟨?_, hout⟩
  refine
    { sound := hr.turn hid hst hw, options := rfl, store := hw.store, books := hw.work.books
      held := fun _ => rfl
      others := fun {u} hu => ?_
      inEffect := fun name => by
        rw [hout, hold]
        exact hr.bench.inEffect_put hst hw.work name
      openScopes := by
        rw [hout, hold]
        exact Bench.openScopes_put (b := r.bench s) hst w }
  have hh : (r.withSite id w).custody.held? u = r.custody.held? u := rfl
  apply hr.outlook_keeps hw.store hh
  intro i hi
  have hne : id ≠ i := fun e => hu (hr.custody.holder_unique hi (e ▸ hid))
  rw [stack?_withSite, if_neg hne]

theorem quiet_turn (hr : r.Sound s) (hid : r.custody.held? t = some id)
    (hst : r.stack? id = some st) {w : Site} (hw : Site.Turn ⟨s, r.ledger, st⟩ w)
    (ho : w.outlook = (⟨s, r.ledger, st⟩ : Site).outlook) :
    Quiet t r s (r.withSite id w) w.store := by
  obtain ⟨hm, hout⟩ := move_turn hr hid hst hw
  refine ⟨hm, ?_, fun _ => rfl⟩
  rw [hout, ho, outlook_some hid hst]

def without (r : Realm) (id : Nat) (c : Custody) : Realm :=
  { r with stackTable := r.stackTable.erase id, custody := c }

theorem stack?_without (c : Custody) (i : Nat) :
    (r.without id c).stack? i = if id = i then none else r.stack? i :=
  Slots.get?_erase id i _

theorem Sound.idle (hr : r.Sound s) (h : (r.outlook s t).level = 0) :
    r.outlook s t = Outlook.idle := by
  cases hid : r.custody.held? t with
  | none => exact outlook_none hid
  | some id =>
    obtain ⟨st, hst⟩ := hr.stack_of_held hid
    rw [outlook_some hid hst] at h ⊢
    exact Site.outlook_idle (hr.sites hst) h

theorem Sound.drop (hr : r.Sound s) (hid : r.custody.held? t = some id)
    (hst : r.stack? id = some st) (h0 : st.level = 0) {c : Custody}
    (ho : c.closed = r.custody.closed) (hc : c.register = (r.custody.unregister id).register)
    (hh : ∀ u, c.held? u = if t = u then none else r.custody.held? u) :
    (r.without id c).Sound s where
  custody := hr.custody.drop hid ho hc hh
  bench := (hr.bench.erase hst h0).1
  ids := fun hx => hr.ids (Slots.get?_of_erase hx).2
  live := by
    intro i
    rw [stack?_without]
    show _ = c.registered i
    rw [Custody.registered_unregister hc]
    split
    · rfl
    · exact hr.live i
  limit := fun hx => hr.limit (Slots.get?_of_erase hx).2

theorem move_drop (hr : r.Sound s) (hid : r.custody.held? t = some id)
    (h0 : (r.outlook s t).level = 0) {c : Custody} (ho : c.closed = r.custody.closed)
    (hc : c.register = (r.custody.unregister id).register)
    (hh : ∀ u, c.held? u = if t = u then none else r.custody.held? u) :
    Move t r s (r.without id c) s := by
  obtain ⟨st, hst⟩ := hr.stack_of_held hid
  have hidle := hr.idle h0
  have hout : (r.without id c).outlook s t = Outlook.idle :=
    outlook_none ((hh t).trans (if_pos rfl))
  rw [outlook_some hid hst] at h0
  obtain ⟨-, heff, hopen⟩ := hr.bench.erase hst h0
  refine
    { sound := hr.drop hid hst h0 ho hc hh
      options := rfl, store := .refl s, books := .refl _ _
      held := fun {u} hu => (hh u).trans (if_neg (Ne.symm hu))
      others := fun {u} hu => ?_
      inEffect := fun name => by rw [hout, hidle]; exact congrArg (· + _) (heff name)
      openScopes := by rw [hout, hidle]; exact congrArg (· + _) hopen }
  apply hr.outlook_keeps (.refl s) ((hh u).trans (if_neg (Ne.symm hu)))
  intro i hi
  have hne : id ≠ i := fun e => hu (hr.custody.holder_unique hi (e ▸ hid))
  rw [stack?_without, if_neg hne]

def withNew (r : Realm) (c : Custody) : Realm :=
  { r with
    stackTable := r.stackTable.set r.nextStack (ScopeStack.new r.nextStack r.options.maxDepth)
    nextStack := r.nextStack + 1
    custody := c }

theorem stack?_withNew (c : Custody) (i : Nat) :
    (r.withNew c).stack? i =
      if r.nextStack = i then some (ScopeStack.new r.nextStack r.options.maxDepth)
      else r.stack? i :=
  Slots.get?_set r.nextStack i _ _

theorem Sound.add (hr : r.Sound s) (hn : r.custody.held? t = none) {c : Custody}
    (ho : c.closed = r.custody.closed) {nickname : String}
    (hc : c.register = ⟨r.nextStack, t, nickname⟩ :: r.custody.register)
    (hh : ∀ u, c.held? u = if t = u then some r.nextStack else r.custody.held? u) :
    (r.withNew c).Sound s where
  custody := by
    have hfresh : ¬ r.custody.registered r.nextStack = true := by
      have h := hr.live r.nextStack
      rw [hr.fresh] at h
      simp [← h]
    exact hr.custody.add hn hfresh ho hc hh
  bench := (hr.bench.new hr.fresh r.nextStack r.options.maxDepth).1
  ids := by
    intro i x hx
    rcases Slots.get?_set_cases hx with ⟨rfl, -⟩ | ⟨-, hx⟩
    · exact Nat.lt_succ_self _
    · exact (hr.ids hx).trans (Nat.lt_succ_self _)
  live := by
    intro i
    rw [stack?_withNew]
    show _ = c.registered i
    rw [Custody.registered_cons hc]
    split
    · rfl
    · exact hr.live i
  limit := by
    intro i x hx
    rcases Slots.get?_set_cases hx with ⟨-, rfl⟩ | ⟨-, hx⟩
    · rfl
    · exact hr.limit hx

theorem quiet_add (hr : r.Sound s) (hn : r.custody.held? t = none) {c : Custody}
    (ho : c.closed = r.custody.closed) {nickname : String}
    (hc : c.register = ⟨r.nextStack, t, nickname⟩ :: r.custody.register)
    (hh : ∀ u, c.held? u = if t = u then some r.nextStack else r.custody.held? u) :
    Quiet t r s (r.withNew c) s := by
  have hsound := hr.add hn ho hc hh
  have hself : c.held? t = some r.nextStack := (hh t).trans (if_pos rfl)
  have hstack : (r.withNew c).stack? r.nextStack =
      some (ScopeStack.new r.nextStack r.options.maxDepth) := by
    rw [stack?_withNew, if_pos rfl]
  have hold : r.outlook s t = Outlook.idle := outlook_none hn
  have hout : (r.withNew c).outlook s t = Outlook.idle := by
    apply hsound.idle
    rw [outlook_some (r := r.withNew c) hself hstack]
    rfl
  obtain ⟨-, heff, hopen⟩ := hr.bench.new hr.fresh r.nextStack r.options.maxDepth
  refine ⟨?_, hout.trans hold.symm, fun h => absurd (by rw [hold]; rfl) h⟩
  refine
    { sound := hsound
      options := rfl, store := .refl s, books := .refl _ _
      held := fun {u} hu => (hh u).trans (if_neg (Ne.symm hu))
      others := fun {u} hu => ?_
      inEffect := fun name => by rw [hout, hold]; exact congrArg (· + _) (heff name)
      openScopes := by rw [hout, hold]; exact congrArg (· + _) hopen }
  apply hr.outlook_keeps (.refl s) ((hh u).trans (if_neg (Ne.symm hu)))
  intro i hi
  have hne : r.nextStack ≠ i := by
    rintro rfl
    obtain ⟨x, hx⟩ := hr.stack_of_held hi
    rw [hr.fresh] at hx
    cases hx
  rw [stack?_withNew, if_neg hne]

end ScopedMethods.Realm

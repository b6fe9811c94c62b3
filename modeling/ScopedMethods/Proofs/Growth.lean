import ScopedMethods.Proofs.Lineage

/-!
# Growth within a scope

Laying methods pushes new chains at the present level and adds candidates to
them. It keeps a stack sound, touches no chain outside the present level, and
moves each count exactly as far as the number of candidates in effect.
-/

set_option autoImplicit false

namespace ScopedMethods

theorem Journal.verbosity_note (j : Journal) (t : Caller) (e : Event) :
    (j.note t e).verbosity = j.verbosity := by
  unfold Journal.note Journal.take
  split
  · split <;> rfl
  · rfl

structure Ledger.Extends (s : Store) (l : Ledger) (s' : Store) (l' : Ledger) : Prop where
  size : s.counters.size ≤ s'.counters.size
  spare : ∀ {k : CounterId}, k.number < s.counters.size →
    (∀ n, l.counters.get? n ≠ some k) → s'.counter k = s.counter k
  kept : ∀ {n : String} {k : CounterId}, l.counters.get? n = some k → l'.counters.get? n = some k
  fresh : ∀ {n : String} {k : CounterId}, l'.counters.get? n = some k →
    l.counters.get? n = some k ∨ s.counters.size ≤ k.number

namespace Ledger.Extends

theorem refl (s : Store) (l : Ledger) : Ledger.Extends s l s l :=
  ⟨le_refl _, fun _ _ => rfl, fun h => h, Or.inl⟩

theorem trans {s s₁ s₂ : Store} {l l₁ l₂ : Ledger} (h : Ledger.Extends s l s₁ l₁)
    (h' : Ledger.Extends s₁ l₁ s₂ l₂) : Ledger.Extends s l s₂ l₂ where
  size := h.size.trans h'.size
  spare := by
    intro k hk hn
    rw [h'.spare (hk.trans_le h.size), h.spare hk hn]
    intro n hkn
    rcases h.fresh hkn with hkn | hge
    · exact hn n hkn
    · omega
  kept := fun hn => h'.kept (h.kept hn)
  fresh := by
    intro n k hn
    rcases h'.fresh hn with hn | hge
    · exact h.fresh hn
    · exact Or.inr (h.size.trans hge)

end Ledger.Extends

theorem Lineage.linked_kept {name : String} {l l' : Ledger} {x : Lineage}
    (h : x.Linked name (l.counters.get? name))
    (hk : ∀ {n : String} {k : CounterId}, l.counters.get? n = some k →
      l'.counters.get? n = some k) :
    x.Linked name (l'.counters.get? name) := by
  cases hg : l.counters.get? name with
  | some k =>
    rw [hg] at h
    rw [hk hg]
    exact h
  | none =>
    rw [hg] at h
    cases x with
    | nil => trivial
    | cons p below => exact absurd h.2.1 (by simp)

namespace Site

/-- What work within a scope does and leaves alone. -/
structure Advance (w w' : Site) : Prop where
  sound : w'.Sound
  level : w'.stack.level = w.stack.level
  maxDepth : w'.stack.maxDepth = w.stack.maxDepth
  verbosity : w'.store.journal.verbosity = w.store.journal.verbosity
  active : w'.ledger.active = w.ledger.active
  size : w.store.chains.size ≤ w'.store.chains.size
  frame : ∀ {j : ChainId}, j.number < w.store.chains.size → ¬ w.Owns j →
    w'.store.chain j = w.store.chain j ∧ ¬ w'.Owns j
  popped : ∀ name, (w'.lineage name).popped w.stack.level = (w.lineage name).popped w.stack.level
  footprint : ∀ name, ∀ p ∈ w'.lineage name,
    p.1 ∈ (w.lineage name).ids ∨ w.store.chains.size ≤ p.1.number
  books : Ledger.Extends w.store w.ledger w'.store w'.ledger
  counted : ∀ name,
    w'.count name + Int32.ofNat (w.weight name) = w.count name + Int32.ofNat (w'.weight name)

namespace Advance

theorem refl {w : Site} (hw : w.Sound) : w.Advance w where
  sound := hw
  level := rfl
  maxDepth := rfl
  verbosity := rfl
  active := rfl
  size := le_refl _
  frame := fun _ h => ⟨rfl, h⟩
  popped := fun _ => rfl
  footprint := fun _ p hp => Or.inl (List.mem_map.2 ⟨p, hp, rfl⟩)
  books := Ledger.Extends.refl _ _
  counted := fun _ => rfl

theorem trans {w w₁ w₂ : Site} (h : w.Advance w₁) (h' : w₁.Advance w₂) : w.Advance w₂ where
  sound := h'.sound
  level := h'.level.trans h.level
  maxDepth := h'.maxDepth.trans h.maxDepth
  verbosity := h'.verbosity.trans h.verbosity
  active := h'.active.trans h.active
  size := h.size.trans h'.size
  frame := by
    intro j hj hn
    obtain ⟨hc, hn₁⟩ := h.frame hj hn
    obtain ⟨hc', hn₂⟩ := h'.frame (hj.trans_le h.size) hn₁
    exact ⟨hc'.trans hc, hn₂⟩
  popped := by
    intro name
    have h1 := h'.popped name
    rw [h.level] at h1
    exact h1.trans (h.popped name)
  footprint := by
    intro name p hp
    rcases h'.footprint name p hp with hp | hge
    · obtain ⟨q, hq, hqp⟩ := List.mem_map.1 hp
      rw [← hqp]
      exact h.footprint name q hq
    · exact Or.inr (h.size.trans hge)
  books := h.books.trans h'.books
  counted := by
    intro name
    have h1 := h.counted name
    have h2 := h'.counted name
    grind

theorem note {w w' : Site} (h : w.Advance w') (t : Caller) (e : Event) : w.Advance (w'.note t e) :=
  ⟨sound_note h.sound t e, h.level, h.maxDepth, (Journal.verbosity_note _ t e).trans h.verbosity,
    h.active, h.size, h.frame, h.popped, h.footprint,
    ⟨h.books.size, h.books.spare, h.books.kept, h.books.fresh⟩, h.counted⟩

end Advance

/-- Work that changes the lineage of one name alone. -/
structure Renewed (name : String) (w w' : Site) : Prop where
  ledger : w'.ledger = w.ledger
  level : w'.stack.level = w.stack.level
  maxDepth : w'.stack.maxDepth = w.stack.maxDepth
  verbosity : w'.store.journal.verbosity = w.store.journal.verbosity
  keys : w'.stack.chains.Distinct
  chains : w.store.chains.size ≤ w'.store.chains.size
  counters : w'.store.counters.size = w.store.counters.size
  frame : ∀ {j : ChainId}, j.number < w.store.chains.size → ¬ w.Owns j →
    w'.store.chain j = w.store.chain j ∧ ¬ w'.Owns j
  spare : ∀ {k : CounterId}, w.ledger.counters.get? name ≠ some k →
    w'.store.counter k = w.store.counter k
  others : ∀ {n : String}, name ≠ n → w'.lineage n = w.lineage n
  linked : (w'.lineage name).Linked name (w.ledger.counters.get? name)
  sloped : (w'.lineage name).Sloped w.stack.level.toNat
  bounded : ∀ p ∈ w'.lineage name, p.1.number < w'.store.chains.size
  popped : (w'.lineage name).popped w.stack.level = (w.lineage name).popped w.stack.level
  footprint : ∀ p ∈ w'.lineage name,
    p.1 ∈ (w.lineage name).ids ∨ w.store.chains.size ≤ p.1.number
  counted : w'.count name + Int32.ofNat (w.weight name) =
    w.count name + Int32.ofNat (w'.weight name)

theorem Renewed.sound {name : String} {w w' : Site} (hw : w.Sound) (h : Renewed name w w') :
    w'.Sound where
  keys := h.keys
  ledger := by
    rw [h.ledger]
    constructor
    · intro n k hn
      rw [h.counters]
      exact hw.ledger.bounded hn
    · exact hw.ledger.injective
  linked := by
    intro n
    rw [h.ledger]
    by_cases hn : name = n
    · exact hn ▸ h.linked
    · rw [h.others hn]
      exact hw.linked n
  sloped := by
    intro n
    rw [h.level]
    by_cases hn : name = n
    · exact hn ▸ h.sloped
    · rw [h.others hn]
      exact hw.sloped n
  bounded := by
    intro n p hp
    by_cases hn : name = n
    · subst hn
      exact h.bounded p hp
    · rw [h.others hn] at hp
      exact (hw.bounded n p hp).trans_le h.chains

theorem Renewed.uncounted {name n : String} {w w' : Site} (hw : w.Sound) (h : Renewed name w w')
    (hn : name ≠ n) : w'.count n = w.count n := by
  simp only [count, Ledger.count, h.ledger]
  cases hk : w.ledger.counters.get? n with
  | none => rfl
  | some k => exact h.spare fun he => hn (hw.ledger.injective he hk)

theorem Renewed.advance {name : String} {w w' : Site} (hw : w.Sound) (h : Renewed name w w') :
    w.Advance w' where
  sound := h.sound hw
  level := h.level
  maxDepth := h.maxDepth
  verbosity := h.verbosity
  active := by rw [h.ledger]
  size := h.chains
  frame := h.frame
  popped := by
    intro n
    by_cases hn : name = n
    · exact hn ▸ h.popped
    · rw [h.others hn]
  footprint := by
    intro n p hp
    by_cases hn : name = n
    · subst hn
      exact h.footprint p hp
    · rw [h.others hn] at hp
      exact Or.inl (List.mem_map.2 ⟨p, hp, rfl⟩)
  books := by
    rw [h.ledger]
    exact ⟨le_of_eq h.counters.symm, fun _ hk => h.spare (hk name), fun hk => hk, Or.inl⟩
  counted := by
    intro n
    by_cases hn : name = n
    · exact hn ▸ h.counted
    · rw [h.uncounted hw hn, weight, weight, h.others hn]

def push (w : Site) (name : String) (c : Chain) : Site :=
  { w with
    store := (w.store.newChain c).2
    stack := { w.stack with chains := w.stack.chains.set name (w.store.newChain c).1 } }

def grow (w : Site) (id : ChainId) (es : List Candidate) : Site :=
  { w with store := (w.store.setEntries id es).count (w.store.chain id).counter 1 }

section Push

variable {w : Site} {name : String} {c : Chain}

theorem chain?_push (n : String) :
    (w.push name c).stack.chain? n =
      if name = n then some ⟨w.store.chains.size⟩ else w.stack.chain? n :=
  Slots.get?_set name n _ _

theorem chain_push_of_lt {j : ChainId} (hj : j.number < w.store.chains.size) :
    (w.push name c).store.chain j = w.store.chain j :=
  Store.chain_newChain_of_lt hj c

theorem chain_push_self : (w.push name c).store.chain ⟨w.store.chains.size⟩ = c :=
  Store.chain_newChain_self w.store c

theorem size_push : (w.push name c).store.chains.size = w.store.chains.size + 1 := by
  simp [push, Store.newChain]

theorem lineage_push_ne (hw : w.Sound) {n : String} (hn : name ≠ n) :
    (w.push name c).lineage n = w.lineage n := by
  apply ScopeStack.lineage_congr
  · rw [chain?_push, if_neg hn]
  · intro p hp
    rw [chain_push_of_lt (hw.bounded n p hp), chain_of_mem_lineage hp]

theorem lineage_push_self (hw : w.Sound) (hs : c.shadows = (w.lineage name).ids) :
    (w.push name c).lineage name = (⟨w.store.chains.size⟩, c) :: w.lineage name := by
  have hc : (w.push name c).stack.chain? name = some ⟨w.store.chains.size⟩ := by
    rw [chain?_push, if_pos rfl]
  rw [lineage, ScopeStack.lineage_of_some hc, Store.lineage_eq_cons, chain_push_self, hs,
    Lineage.ids, List.map_map]
  congr 1
  have hb := hw.bounded name
  calc
    _ = (w.lineage name).map id := List.map_congr_left fun p hp => by
      simp [chain_push_of_lt (hb p hp), chain_of_mem_lineage hp]
    _ = _ := List.map_id _

theorem renewed_push (hw : w.Sound) (hn : c.name = name) (hl : c.level = w.stack.level)
    (h0 : 0 < w.stack.level.toNat) (he : c.entries = (w.lineage name).entries)
    (hk : some c.counter = w.ledger.counters.get? name) (hs : c.shadows = (w.lineage name).ids)
    (htop : (w.lineage name).popped w.stack.level = w.lineage name) :
    Renewed name w (w.push name c) where
  ledger := rfl
  level := rfl
  maxDepth := rfl
  verbosity := rfl
  counters := rfl
  keys := Slots.distinct_set _ _ hw.keys
  chains := by
    rw [size_push]
    exact Nat.le_succ _
  spare := fun _ => rfl
  others := lineage_push_ne hw
  frame := by
    intro j hj hno
    refine ⟨chain_push_of_lt hj, ?_⟩
    rintro ⟨n, hc, hlev⟩
    rw [chain_push_of_lt hj] at hlev
    rw [chain?_push] at hc
    split at hc
    · cases hc
      exact Nat.lt_irrefl _ hj
    · exact hno ⟨n, hc, hlev⟩
  linked := by
    rw [lineage_push_self hw hs]
    exact ⟨hn, hk, hs, by rw [he], hw.linked name⟩
  sloped := by
    have hp := Lineage.popped_sloped (hw.sloped name)
    rw [htop] at hp
    rw [lineage_push_self hw hs, Lineage.Sloped, hl]
    exact ⟨h0, le_refl _, hp⟩
  bounded := by
    intro p hp
    rw [lineage_push_self hw hs] at hp
    rw [size_push]
    rcases List.mem_cons.1 hp with rfl | hp
    · exact Nat.lt_succ_self _
    · exact (hw.bounded name p hp).trans (Nat.lt_succ_self _)
  popped := by
    rw [lineage_push_self hw hs, Lineage.popped_cons (by exact hl), htop]
  footprint := by
    intro p hp
    rw [lineage_push_self hw hs] at hp
    rcases List.mem_cons.1 hp with rfl | hp
    · exact Or.inr (le_refl _)
    · exact Or.inl (List.mem_map.2 ⟨p, hp, rfl⟩)
  counted := by
    have hwt : (w.push name c).weight name = w.weight name := by
      rw [weight, lineage_push_self hw hs]
      exact congrArg List.length he
    rw [hwt]
    rfl

end Push

section Grow

variable {w : Site} {name : String} {id : ChainId} {es : List Candidate}

theorem chain_grow_ne {j : ChainId} (hj : id ≠ j) :
    (w.grow id es).store.chain j = w.store.chain j := by
  rw [grow, Store.chain_count, Store.chain_setEntries_ne hj]

theorem chain_grow_self (hid : id.number < w.store.chains.size) :
    (w.grow id es).store.chain id = { w.store.chain id with entries := es } := by
  rw [grow, Store.chain_count, Store.chain_setEntries_self hid]

theorem size_grow : (w.grow id es).store.chains.size = w.store.chains.size := by
  simp [grow, Store.count, Store.setEntries]

theorem mem_lineage_of_chain? (hc : w.stack.chain? name = some id) :
    (id, w.store.chain id) ∈ w.lineage name := by
  rw [lineage, ScopeStack.lineage_of_some hc]
  exact List.mem_cons_self

theorem lineage_grow_ne (hw : w.Sound) (hc : w.stack.chain? name = some id) {n : String}
    (hn : name ≠ n) : (w.grow id es).lineage n = w.lineage n := by
  apply ScopeStack.lineage_congr rfl
  intro p hp
  change p ∈ w.lineage n at hp
  have hne : id ≠ p.1 := by
    rintro rfl
    have h1 := name_of_mem_lineage hw (mem_lineage_of_chain? hc)
    have h2 := name_of_mem_lineage hw hp
    exact hn (h1.symm.trans h2)
  rw [chain_grow_ne hne, chain_of_mem_lineage hp]

theorem lineage_grow_self (es : List Candidate) (hw : w.Sound)
    (hc : w.stack.chain? name = some id) :
    ∃ below, w.lineage name = (id, w.store.chain id) :: below ∧
      (w.grow id es).lineage name = (id, { w.store.chain id with entries := es }) :: below := by
  have hl : w.lineage name = w.store.lineage id := ScopeStack.lineage_of_some hc _
  have hid := hw.bounded name _ (mem_lineage_of_chain? hc)
  refine ⟨_, hl, ?_⟩
  have hc' : (w.grow id es).stack.chain? name = some id := hc
  rw [lineage, ScopeStack.lineage_of_some hc', Store.lineage_eq_cons, chain_grow_self hid]
  congr 1
  apply List.map_congr_left
  intro i hi
  have hne : id ≠ i := by
    rintro rfl
    -- A chain among those it shadows would have more shadows than itself.
    have hlink := hw.linked name
    rw [hl] at hlink
    have hmem : (id, w.store.chain id) ∈
        (w.store.chain id).shadows.map fun i => (i, w.store.chain i) :=
      List.mem_map.2 ⟨id, hi, rfl⟩
    have hlt := Lineage.linked_shadows hlink.2.2.2.2 hmem
    simp at hlt
  rw [chain_grow_ne hne]

theorem ids_grow (es : List Candidate) (hw : w.Sound) (hc : w.stack.chain? name = some id) :
    ((w.grow id es).lineage name).ids = (w.lineage name).ids := by
  obtain ⟨below, hlin, hlin'⟩ := lineage_grow_self es hw hc
  rw [hlin, hlin']
  rfl

theorem count_grow {k : CounterId} (hw : w.Sound) (hk : w.ledger.counters.get? name = some k)
    (hc : (w.store.chain id).counter = k) : (w.grow id es).count name = w.count name + 1 := by
  subst hc
  have hb := hw.ledger.bounded hk
  simp only [count, Ledger.count, grow, hk]
  rw [Store.counter_count_self (by simpa [Store.setEntries] using hb), Store.counter_setEntries]

/-- One more candidate in a chain of the present level counts one. -/
theorem renewed_grow (hw : w.Sound) (hc : w.stack.chain? name = some id)
    (hl : (w.store.chain id).level = w.stack.level)
    (hlen : es.length = (w.store.chain id).entries.length + 1)
    (hsub : (w.store.chain id).entries.Sublist es) : Renewed name w (w.grow id es) := by
  obtain ⟨below, hlin, hlin'⟩ := lineage_grow_self es hw hc
  have hlink := hw.linked name
  have hslope := hw.sloped name
  rw [hlin] at hlink hslope
  have hk : w.ledger.counters.get? name = some (w.store.chain id).counter := hlink.2.1.symm
  have hmem : ∀ p ∈ (w.grow id es).lineage name, p.1 ∈ (w.lineage name).ids := by
    intro p hp
    rw [← ids_grow es hw hc]
    exact List.mem_map.2 ⟨p, hp, rfl⟩
  refine
    { ledger := rfl, level := rfl, maxDepth := rfl, verbosity := rfl, keys := hw.keys
      chains := by rw [size_grow]
      counters := by simp [grow, Store.count, Store.setEntries]
      others := lineage_grow_ne hw hc
      linked := ?_, sloped := ?_, bounded := ?_, popped := ?_, frame := ?_, spare := ?_
      footprint := fun p hp => Or.inl (hmem p hp), counted := ?_ }
  · intro j hj hno
    have hne : id ≠ j := by
      rintro rfl
      exact hno ⟨name, hc, hl⟩
    refine ⟨chain_grow_ne hne, ?_⟩
    rintro ⟨n, hcn, hlev⟩
    rw [chain_grow_ne hne] at hlev
    exact hno ⟨n, hcn, hlev⟩
  · intro k hne
    have hne' : (w.store.chain id).counter ≠ k := fun e => hne (e ▸ hk)
    rw [grow, Store.counter_count_ne hne', Store.counter_setEntries]
  · rw [hlin']
    exact ⟨hlink.1, hlink.2.1, hlink.2.2.1, hlink.2.2.2.1.trans hsub, hlink.2.2.2.2⟩
  · rw [hlin']
    exact hslope
  · intro p hp
    obtain ⟨q, hq, hqp⟩ := List.mem_map.1 (hmem p hp)
    rw [size_grow, ← hqp]
    exact hw.bounded name q hq
  · rw [hlin', hlin, Lineage.popped_cons (by exact hl), Lineage.popped_cons (by exact hl)]
  · have hweight : (w.grow id es).weight name = w.weight name + 1 := by
      rw [weight, weight, hlin', hlin]
      exact hlen
    rw [count_grow hw hk rfl, hweight, Int32.ofNat_add]
    have h1 : Int32.ofNat 1 = 1 := rfl
    grind

end Grow

end Site

end ScopedMethods

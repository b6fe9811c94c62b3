import ScopedMethods.Proofs.Leaving
import ScopedMethods.Proofs.Plan

/-!
# Work on one stack

Whatever is done to a stack moves the counts with the candidates in effect and
the tally with the level. It may change the chains that the stack uses and no
others.
-/

set_option autoImplicit false

namespace ScopedMethods

structure Store.Keeps (s s' : Store) : Prop where
  size : s.chains.size ≤ s'.chains.size
  frame : ∀ {j : ChainId}, j.number < s.chains.size → s'.chain j = s.chain j
  verbosity : s'.journal.verbosity = s.journal.verbosity

namespace Store.Keeps

theorem refl (s : Store) : s.Keeps s := ⟨le_refl _, fun _ => rfl, rfl⟩

theorem trans {s s₁ s₂ : Store} (h : s.Keeps s₁) (h' : s₁.Keeps s₂) : s.Keeps s₂ where
  size := h.size.trans h'.size
  frame := fun hj => (h'.frame (hj.trans_le h.size)).trans (h.frame hj)
  verbosity := h'.verbosity.trans h.verbosity

theorem note {s s' : Store} (h : s.Keeps s') (t : Caller) (e : Event) : s.Keeps (s'.note t e) :=
  ⟨h.size, h.frame, (Journal.verbosity_note _ t e).trans h.verbosity⟩

end Store.Keeps

structure Store.Same (s s' : Store) : Prop where
  chains : s'.chains = s.chains
  counters : s'.counters = s.counters
  verbosity : s'.journal.verbosity = s.journal.verbosity

namespace Store.Same

theorem refl (s : Store) : s.Same s := ⟨rfl, rfl, rfl⟩

theorem trans {s s₁ s₂ : Store} (h : s.Same s₁) (h' : s₁.Same s₂) : s.Same s₂ :=
  ⟨h'.chains.trans h.chains, h'.counters.trans h.counters, h'.verbosity.trans h.verbosity⟩

theorem note {s s' : Store} (h : s.Same s') (t : Caller) (e : Event) : s.Same (s'.note t e) :=
  ⟨h.chains, h.counters, (Journal.verbosity_note _ t e).trans h.verbosity⟩

theorem refuse {s s' : Store} (h : s.Same s') (t : Caller) (id : Nat) (r : Refusal) :
    s.Same (s'.refuse t id r) :=
  ⟨h.chains, h.counters, (Journal.verbosity_refuse _ t id r).trans h.verbosity⟩

theorem keeps {s s' : Store} (h : s.Same s') : s.Keeps s' :=
  ⟨le_of_eq (by rw [h.chains]), fun _ => by simp [Store.chain, h.chains], h.verbosity⟩

theorem counter {s s' : Store} (h : s.Same s') (k : CounterId) : s'.counter k = s.counter k := by
  simp [Store.counter, h.counters]

end Store.Same

namespace Site

theorem lineage_keeps {s s' : Store} {l : Ledger} {st : ScopeStack} (hw : Sound ⟨s, l, st⟩)
    (hk : s.Keeps s') : st.lineage s' = st.lineage s := by
  funext n
  apply ScopeStack.lineage_congr rfl
  intro p hp
  rw [hk.frame (hw.bounded n p hp), ScopeStack.chain_of_mem_lineage hp]

theorem sound_keeps {s s' : Store} {l l' : Ledger} {st : ScopeStack} (hw : Sound ⟨s, l, st⟩)
    (hk : s.Keeps s')
    (hb : ∀ {n : String} {k : CounterId}, l.counters.get? n = some k → l'.counters.get? n = some k)
    (hl : l'.Sound s') : Sound ⟨s', l', st⟩ ∧ st.lineage s' = st.lineage s := by
  have hlin := lineage_keeps hw hk
  refine ⟨⟨hw.keys, hl, ?_, ?_, ?_⟩, hlin⟩
  · intro n
    show (st.lineage s' n).Linked n (l'.counters.get? n)
    rw [hlin]
    exact Lineage.linked_kept (hw.linked n) hb
  · intro n
    show (st.lineage s' n).Sloped _
    rw [hlin]
    exact hw.sloped n
  · intro n p hp
    change p ∈ st.lineage s' n at hp
    rw [hlin] at hp
    exact (hw.bounded n p hp).trans_le hk.size

/-- Work on a stack: it may change the chains that the stack uses and no others. -/
structure Work (w w' : Site) : Prop where
  sound : w'.Sound
  size : w.store.chains.size ≤ w'.store.chains.size
  frame : ∀ {j : ChainId}, j.number < w.store.chains.size → (∀ name, j ∉ (w.lineage name).ids) →
    w'.store.chain j = w.store.chain j
  footprint : ∀ name, ∀ p ∈ w'.lineage name,
    (∃ n, p.1 ∈ (w.lineage n).ids) ∨ w.store.chains.size ≤ p.1.number
  books : Ledger.Extends w.store w.ledger w'.store w'.ledger
  counted : ∀ name,
    w'.count name + Int32.ofNat (w.weight name) = w.count name + Int32.ofNat (w'.weight name)
  active : w'.ledger.active + UInt64.ofNat w.stack.level.toNat =
    w.ledger.active + UInt64.ofNat w'.stack.level.toNat

variable {w w₁ w' : Site}

theorem mem_ids {name : String} {p : ChainId × Chain} (h : p ∈ w.lineage name) :
    p.1 ∈ (w.lineage name).ids :=
  List.mem_map.2 ⟨p, h, rfl⟩

namespace Work

theorem refl (hw : w.Sound) : Work w w :=
  ⟨hw, le_refl _, fun _ _ => rfl, fun name _ hp => Or.inl ⟨name, mem_ids hp⟩, .refl _ _,
    fun _ => rfl, rfl⟩

theorem trans (h : Work w w₁) (h' : Work w₁ w') : Work w w' where
  sound := h'.sound
  size := h.size.trans h'.size
  frame := by
    intro j hj hn
    have hn₁ : ∀ name, j ∉ (w₁.lineage name).ids := by
      intro name hm
      obtain ⟨p, hp, rfl⟩ := List.mem_map.1 hm
      rcases h.footprint name p hp with ⟨n, hm'⟩ | hge
      · exact hn n hm'
      · omega
    rw [h'.frame (hj.trans_le h.size) hn₁, h.frame hj hn]
  footprint := by
    intro name p hp
    rcases h'.footprint name p hp with ⟨n, hm⟩ | hge
    · obtain ⟨q, hq, hqp⟩ := List.mem_map.1 hm
      rw [← hqp]
      exact h.footprint n q hq
    · exact Or.inr (h.size.trans hge)
  books := h.books.trans h'.books
  counted := by
    intro name
    have h1 := h.counted name
    have h2 := h'.counted name
    grind
  active := by
    have h1 := h.active
    have h2 := h'.active
    grind

theorem note (h : Work w w') (t : Caller) (e : Event) : Work w (w'.note t e) :=
  ⟨sound_note h.sound t e, h.size, h.frame, h.footprint,
    ⟨h.books.size, h.books.spare, h.books.kept, h.books.fresh⟩, h.counted, h.active⟩

theorem of_same (hw : w.Sound) {s : Store} (hs : w.store.Same s) :
    Work w ⟨s, w.ledger, w.stack⟩ where
  sound := (sound_keeps hw hs.keeps (fun hn => hn)
    ⟨fun hn => (hw.ledger.bounded hn).trans_le (le_of_eq (by rw [hs.counters])),
      hw.ledger.injective⟩).1
  size := hs.keeps.size
  frame := fun hj _ => hs.keeps.frame hj
  footprint := by
    intro name p hp
    change p ∈ w.stack.lineage s name at hp
    rw [lineage_keeps hw hs.keeps] at hp
    exact Or.inl ⟨name, mem_ids hp⟩
  books := ⟨le_of_eq (by rw [hs.counters]), fun _ _ => hs.counter _, fun hn => hn, Or.inl⟩
  counted := by
    intro name
    have hc : count ⟨s, w.ledger, w.stack⟩ name = w.count name := by
      simp only [count, Ledger.count, hs.counter]
    have hl : weight ⟨s, w.ledger, w.stack⟩ name = w.weight name := by
      show (w.stack.lineage s name).entries.length = _
      rw [lineage_keeps hw hs.keeps]
      rfl
    rw [hc, hl]
  active := rfl

theorem of_advance (h : Advance w w') : Work w w' where
  sound := h.sound
  size := h.size
  frame := by
    intro j hj hn
    refine (h.frame hj ?_).1
    rintro ⟨name, hc, -⟩
    exact hn name (mem_ids (mem_lineage_of_chain? hc))
  footprint := fun name p hp => (h.footprint name p hp).imp (fun hm => ⟨name, hm⟩) id
  books := h.books
  counted := h.counted
  active := by rw [h.level, h.active]

theorem of_shed {n : Nat} (h : Shed n w w') : Work w w' where
  sound := h.sound
  size := le_of_eq (by rw [h.chains])
  frame := fun _ _ => by simp [Store.chain, h.chains]
  footprint := fun name p hp => Or.inl ⟨name, mem_ids (h.footprint name p hp)⟩
  books := h.books
  counted := h.counted
  active := by
    rw [← h.level, UInt64.ofNat_add, ← h.active]
    grind

theorem of_entered (h : Entered w w') : Work w w' where
  sound := h.sound
  size := le_of_eq (by rw [h.chains])
  frame := fun _ _ => by simp [Store.chain, h.chains]
  footprint := fun name p hp => Or.inl ⟨name, mem_ids (by rwa [← h.lineage])⟩
  books := by
    refine ⟨le_of_eq (by rw [h.counters]), ?_, ?_, ?_⟩
    · intro k _ _
      simp [Store.counter, h.counters]
    · intro n k hn
      rw [h.names]
      exact hn
    · intro n k hn
      rw [h.names] at hn
      exact Or.inl hn
  counted := by
    intro name
    have hc : w'.count name = w.count name := by
      simp [count, Ledger.count, h.names, Store.counter, h.counters]
    rw [hc, weight, weight, h.lineage]
  active := by
    have h1 : UInt64.ofNat 1 = 1 := rfl
    rw [h.active, h.level, UInt64.ofNat_add, h1]
    grind

theorem enter (t : Caller) (hw : w.Sound)
    (hl : w.stack.maxDepth = 0 → w.stack.level.toNat + 1 < 2 ^ 32) : Work w (w.enter t).2 := by
  by_cases h : w.full = true
  · rw [enter_full t h]
    exact of_same hw ((Store.Same.refl w.store).refuse t _ _)
  · exact of_entered (enter_of_not_full t h hw hl).2

theorem lay (c : Catalog) (t : Caller) (ty : TypeId) (hw : w.Sound)
    (h0 : 0 < w.stack.level.toNat) : Work w (w.lay c t ty).2 := by
  rw [lay_eq_carry]
  exact of_advance (carry_spec c t _ hw h0).advance

theorem leave (t : Caller) (hw : w.Sound) (h0 : 0 < w.stack.level.toNat) : Work w (w.leave t) :=
  of_shed (shed_leave t hw h0)

theorem destroy (t : Caller) (hw : w.Sound) : Work w (w.destroy t) := of_shed (shed_destroy t hw)

end Work

theorem level_destroy (t : Caller) (hw : w.Sound) : (w.destroy t).stack.level = 0 := by
  have h := (shed_destroy t hw).level
  have h0 : (w.destroy t).stack.level.toNat = 0 := by omega
  exact UInt32.toNat_inj.1 h0

end Site

end ScopedMethods

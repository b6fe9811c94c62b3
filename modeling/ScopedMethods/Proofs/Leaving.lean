import ScopedMethods.Proofs.Growth

/-!
# Entering and leaving scopes

Entering changes the level and the tally alone. Leaving takes the chains of the
present level out of use and their surplus off the counters; no chain changes.
-/

set_option autoImplicit false

namespace ScopedMethods

open Slots

theorem Journal.verbosity_refuse (j : Journal) (t : Caller) (object : Nat) (r : Refusal) :
    (j.refuse t object r).verbosity = j.verbosity := by
  unfold Journal.refuse
  rw [Journal.verbosity_note]
  split
  · rfl
  · exact Journal.verbosity_note _ _ _

theorem Lineage.linked_entries_le {name : String} {k : Option CounterId} {l : Lineage}
    (h : l.Linked name k) (level : Level) : (l.popped level).entries.length ≤ l.entries.length :=
  (entries_popped_sublist level h).length_le

namespace Site

section Revert

variable (level : Level)

def kept? (s : Store) (id : ChainId) : Option ChainId :=
  if (s.chain id).level = level then (s.chain id).previous? else some id

def charged (s : Store) (id : ChainId) : Store :=
  if (s.chain id).level = level then
    s.count (s.chain id).counter (-Int32.ofNat (surplus s id))
  else s

theorem charged_frame (s : Store) (id : ChainId) :
    (charged level s id).chains = s.chains ∧ (charged level s id).journal = s.journal ∧
      (charged level s id).counters.size = s.counters.size := by
  unfold charged
  split
  · exact ⟨rfl, rfl, by simp [Store.count]⟩
  · exact ⟨rfl, rfl, rfl⟩

@[simp] theorem chain_charged (s : Store) (id j : ChainId) :
    (charged level s id).chain j = s.chain j := by
  rw [Store.chain, Store.chain, (charged_frame level s id).1]

theorem kept?_charged (s : Store) (id : ChainId) :
    kept? level (charged level s id) = kept? level s := by
  funext j
  simp only [kept?, chain_charged]

theorem surplus_charged (s : Store) (id j : ChainId) :
    surplus (charged level s id) j = surplus s j := by
  simp only [surplus, chain_charged]

theorem counter_charged_of_ne {s : Store} {id : ChainId} {k : CounterId}
    (h : (s.chain id).counter ≠ k) : (charged level s id).counter k = s.counter k := by
  unfold charged
  split
  · exact Store.counter_count_ne h _
  · rfl

theorem counter_charged_self {s : Store} {id : ChainId}
    (hb : (s.chain id).counter.number < s.counters.size) :
    (charged level s id).counter (s.chain id).counter =
      s.counter (s.chain id).counter -
        if (s.chain id).level = level then Int32.ofNat (surplus s id) else 0 := by
  unfold charged
  split
  · rw [Store.counter_count_self hb]
    grind
  · grind

theorem revert_store_cons (s : Store) (p : String × ChainId) (rest : Slots String ChainId) :
    (revert level s (p :: rest)).1 = (revert level (charged level s p.2) rest).1 := by
  obtain ⟨name, id⟩ := p
  by_cases hl : (s.chain id).level = level
  · simp only [revert, charged, hl, if_true]
    cases (s.chain id).previous? <;> rfl
  · simp only [revert, charged, hl, if_false]

theorem revert_chains_cons (s : Store) (p : String × ChainId) (rest : Slots String ChainId) :
    (revert level s (p :: rest)).2.1 =
      ((kept? level s p.2).map (p.1, ·)).toList ++
        (revert level (charged level s p.2) rest).2.1 := by
  obtain ⟨name, id⟩ := p
  by_cases hl : (s.chain id).level = level
  · simp only [revert, charged, kept?, hl, if_true]
    cases (s.chain id).previous? <;> rfl
  · simp only [revert, charged, kept?, hl, if_false]
    rfl

theorem revert_frame (s : Store) (chains : Slots String ChainId) :
    (revert level s chains).1.chains = s.chains ∧
      (revert level s chains).1.journal = s.journal ∧
      (revert level s chains).1.counters.size = s.counters.size := by
  induction chains generalizing s with
  | nil => exact ⟨rfl, rfl, rfl⟩
  | cons p rest ih =>
    obtain ⟨h1, h2, h3⟩ := ih (charged level s p.2)
    obtain ⟨c1, c2, c3⟩ := charged_frame level s p.2
    rw [revert_store_cons]
    exact ⟨h1.trans c1, h2.trans c2, h3.trans c3⟩

theorem revert_keys (s : Store) (chains : Slots String ChainId) :
    (revert level s chains).2.1.keys.Sublist chains.keys := by
  induction chains generalizing s with
  | nil => exact List.Sublist.refl _
  | cons p rest ih =>
    have h := ih (charged level s p.2)
    rw [revert_chains_cons]
    cases kept? level s p.2 with
    | none => exact h.trans (List.sublist_cons_self _ _)
    | some q => exact h.cons_cons _

theorem revert_get? (s : Store) {chains : Slots String ChainId} (hd : chains.Distinct)
    (name : String) :
    (revert level s chains).2.1.get? name = (chains.get? name).bind (kept? level s) := by
  induction chains generalizing s with
  | nil => rfl
  | cons p rest ih =>
    obtain ⟨n, id⟩ := p
    obtain ⟨hn, hr⟩ := List.nodup_cons.1 hd
    have hih := ih (charged level s id) hr
    rw [kept?_charged] at hih
    rw [revert_chains_cons]
    by_cases hne : n = name
    · subst hne
      have hnone : (revert level (charged level s id) rest).2.1.get? n = none :=
        Slots.get?_eq_none fun h => hn ((revert_keys level _ rest).subset h)
      cases hk : kept? level s id with
      | none => simpa [get?, hk] using hnone
      | some q => simp [get?, hk]
    · cases kept? level s id with
      | none => simpa [get?, hne] using hih
      | some q => simpa [get?, hne] using hih

theorem counter_revert_of_ne (s : Store) {chains : Slots String ChainId} {k : CounterId}
    (h : ∀ p ∈ chains, (s.chain p.2).counter ≠ k) :
    (revert level s chains).1.counter k = s.counter k := by
  induction chains generalizing s with
  | nil => rfl
  | cons p rest ih =>
    have hrest : ∀ q ∈ rest, ((charged level s p.2).chain q.2).counter ≠ k := by
      intro q hq
      rw [chain_charged]
      exact h q (List.mem_cons_of_mem _ hq)
    rw [revert_store_cons, ih _ hrest]
    exact counter_charged_of_ne level (h p List.mem_cons_self)

/-- The counter of a name goes down by the surplus of the chain that gives way. -/
theorem counter_revert (s : Store) {chains : Slots String ChainId} (hd : chains.Distinct)
    {name : String} {id : ChainId} (hid : chains.get? name = some id)
    (hb : (s.chain id).counter.number < s.counters.size)
    (hne : ∀ p ∈ chains, p.1 ≠ name → (s.chain p.2).counter ≠ (s.chain id).counter) :
    (revert level s chains).1.counter (s.chain id).counter =
      s.counter (s.chain id).counter -
        if (s.chain id).level = level then Int32.ofNat (surplus s id) else 0 := by
  -- The name stands in one entry of the table; all others leave its counter alone.
  induction chains generalizing s with
  | nil => simp [get?] at hid
  | cons p rest ih =>
    obtain ⟨n, j⟩ := p
    obtain ⟨hn, hr⟩ := List.nodup_cons.1 hd
    have hrest : ∀ q ∈ rest, q.1 ≠ name → (s.chain q.2).counter ≠ (s.chain id).counter :=
      fun q hq => hne q (List.mem_cons_of_mem _ hq)
    rw [revert_store_cons]
    by_cases hnn : n = name
    · subst hnn
      obtain rfl : j = id := by simpa [get?] using hid
      rw [counter_revert_of_ne, counter_charged_self level hb]
      intro q hq
      rw [chain_charged]
      exact hrest q hq fun e => hn (e ▸ List.mem_map.2 ⟨q, hq, rfl⟩)
    · have hid' : get? name rest = some id := by simpa [get?, hnn] using hid
      have hih := ih (charged level s j) hr hid'
      simp only [chain_charged, surplus_charged, (charged_frame level s j).2.2] at hih
      rw [hih hb hrest, counter_charged_of_ne level (hne (n, j) List.mem_cons_self hnn)]

end Revert

/-- The state after some scopes were left: how far the level, the tally and the
counts go down, and that nothing else changes. -/
structure Shed (n : Nat) (w w' : Site) : Prop where
  sound : w'.Sound
  level : w'.stack.level.toNat + n = w.stack.level.toNat
  maxDepth : w'.stack.maxDepth = w.stack.maxDepth
  verbosity : w'.store.journal.verbosity = w.store.journal.verbosity
  active : w'.ledger.active + UInt64.ofNat n = w.ledger.active
  chains : w'.store.chains = w.store.chains
  counters : w'.ledger.counters = w.ledger.counters
  books : Ledger.Extends w.store w.ledger w'.store w'.ledger
  counted : ∀ name,
    w'.count name + Int32.ofNat (w.weight name) = w.count name + Int32.ofNat (w'.weight name)
  footprint : ∀ name, ∀ p ∈ w'.lineage name, p ∈ w.lineage name

variable {w : Site}

theorem Shed.trans {n m : Nat} {w₁ w₂ : Site} (h : Shed n w w₁) (h' : Shed m w₁ w₂) :
    Shed (n + m) w w₂ where
  sound := h'.sound
  level := by have h1 := h.level; have h2 := h'.level; omega
  maxDepth := h'.maxDepth.trans h.maxDepth
  verbosity := h'.verbosity.trans h.verbosity
  active := by
    rw [UInt64.ofNat_add, ← h.active, ← h'.active]
    grind
  chains := h'.chains.trans h.chains
  counters := h'.counters.trans h.counters
  books := h.books.trans h'.books
  counted := by
    intro name
    have h1 := h.counted name
    have h2 := h'.counted name
    grind
  footprint := fun name p hp => h.footprint name p (h'.footprint name p hp)

theorem Shed.refl (hw : w.Sound) : Shed 0 w w where
  sound := hw
  level := rfl
  maxDepth := rfl
  verbosity := rfl
  active := by
    have h : UInt64.ofNat 0 = 0 := rfl
    rw [h]
    grind
  chains := rfl
  counters := rfl
  books := Ledger.Extends.refl _ _
  counted := fun _ => rfl
  footprint := fun _ _ hp => hp

theorem Shed.note {n : Nat} {w' : Site} (h : Shed n w w') (t : Caller) (e : Event) :
    Shed n w (w'.note t e) :=
  ⟨sound_note h.sound t e, h.level, h.maxDepth, (Journal.verbosity_note _ t e).trans h.verbosity,
    h.active, h.chains, h.counters, ⟨h.books.size, h.books.spare, h.books.kept, h.books.fresh⟩,
    h.counted, h.footprint⟩

theorem lineage_leave (t : Caller) (hw : w.Sound) (name : String) :
    (w.leave t).lineage name = (w.lineage name).popped w.stack.level := by
  obtain ⟨hs, -, -⟩ := revert_frame w.stack.level w.store w.stack.chains
  have hchain : ∀ j, (w.leave t).store.chain j = w.store.chain j := fun j => by
    simp only [leave, Store.chain_note]
    simp [Store.chain, hs]
  have hlin : ∀ id, (w.leave t).store.lineage id = w.store.lineage id := fun id =>
    Store.lineage_congr fun p hp => by rw [hchain, Store.chain_of_mem_lineage hp]
  have hget : (w.leave t).stack.chain? name =
      (w.stack.chain? name).bind (kept? w.stack.level w.store) :=
    revert_get? w.stack.level w.store hw.keys name
  have hlink := hw.linked name
  cases hc : w.stack.chain? name with
  | none =>
    rw [hc] at hget
    rw [lineage, lineage, ScopeStack.lineage_of_none hget, ScopeStack.lineage_of_none hc]
    rfl
  | some id =>
    rw [hc] at hget
    have hold : w.lineage name = w.store.lineage id := ScopeStack.lineage_of_some hc _
    rw [hold] at hlink ⊢
    rw [Store.lineage_eq_cons] at hlink
    by_cases hl : (w.store.chain id).level = w.stack.level
    · rw [Store.lineage_eq_cons, Lineage.popped_cons (by exact hl)]
      have hk : kept? w.stack.level w.store id = (w.store.chain id).shadows.head? := by
        simp [kept?, hl, Chain.previous?]
      rw [Option.bind_some, hk] at hget
      cases hsh : (w.store.chain id).shadows with
      | nil =>
        rw [hsh] at hget
        rw [lineage, ScopeStack.lineage_of_none hget]
        rfl
      | cons q below =>
        rw [hsh] at hget hlink
        have hq := hlink.2.2.2.2.2.2.1
        simp only [Lineage.ids, List.map_map] at hq
        rw [lineage, ScopeStack.lineage_of_some hget, hlin, Store.lineage_eq_cons, List.map_cons]
        congr 1
        rw [hq, List.map_map]
        exact List.map_congr_left fun i _ => rfl
    · have hk : kept? w.stack.level w.store id = some id := by simp [kept?, hl]
      rw [Option.bind_some, hk] at hget
      rw [lineage, ScopeStack.lineage_of_some hget, hlin]
      simp [Store.lineage_eq_cons, Lineage.popped, hl]

theorem Sound.counter_of_chain (hw : w.Sound) {name : String} {id : ChainId}
    (hc : w.stack.chain? name = some id) :
    w.ledger.counters.get? name = some (w.store.chain id).counter := by
  have h := hw.linked name
  rw [lineage, ScopeStack.lineage_of_some hc] at h
  exact h.2.1.symm

theorem Sound.counter_of_mem (hw : w.Sound) {p : String × ChainId} (hp : p ∈ w.stack.chains) :
    w.ledger.counters.get? p.1 = some (w.store.chain p.2).counter :=
  hw.counter_of_chain (Slots.get?_of_mem hw.keys hp)

theorem count_leave_of_none (t : Caller) (hw : w.Sound) {name : String}
    (hc : w.stack.chain? name = none) : (w.leave t).count name = w.count name := by
  simp only [count, Ledger.count, leave]
  cases hk : w.ledger.counters.get? name with
  | none => rfl
  | some k =>
    apply counter_revert_of_ne
    rintro ⟨n, id⟩ hp rfl
    obtain rfl := hw.ledger.injective (hw.counter_of_mem hp) hk
    have hg : w.stack.chain? n = some id := Slots.get?_of_mem hw.keys hp
    rw [hc] at hg
    cases hg

theorem count_leave_of_some (t : Caller) (hw : w.Sound) {name : String} {id : ChainId}
    (hc : w.stack.chain? name = some id) :
    (w.leave t).count name = w.count name -
      if (w.store.chain id).level = w.stack.level then Int32.ofNat (surplus w.store id) else 0 := by
  have hk := hw.counter_of_chain hc
  simp only [count, Ledger.count, leave, hk]
  apply counter_revert w.stack.level w.store hw.keys hc (hw.ledger.bounded hk)
  intro p hp hne e
  exact hne (hw.ledger.injective (hw.counter_of_mem hp) (e ▸ hk))

theorem surplus_eq (t : Caller) (hw : w.Sound) {name : String} {id : ChainId}
    (hc : w.stack.chain? name = some id) (hl : (w.store.chain id).level = w.stack.level) :
    surplus w.store id = w.weight name - (w.leave t).weight name := by
  have hlin : w.lineage name = w.store.lineage id := ScopeStack.lineage_of_some hc _
  rw [weight, weight, lineage_leave t hw, hlin, Store.lineage_eq_cons,
    Lineage.popped_cons (by exact hl)]
  simp only [surplus, Chain.previous?, Chain.size]
  cases (w.store.chain id).shadows <;> rfl

theorem weight_leave_le (t : Caller) (hw : w.Sound) (name : String) :
    (w.leave t).weight name ≤ w.weight name := by
  rw [weight, lineage_leave t hw]
  exact Lineage.linked_entries_le (hw.linked name) _

theorem count_leave (t : Caller) (hw : w.Sound) (name : String) :
    (w.leave t).count name + Int32.ofNat (w.weight name) =
      w.count name + Int32.ofNat ((w.leave t).weight name) := by
  cases hc : w.stack.chain? name with
  | none =>
    have hlin : w.lineage name = [] := ScopeStack.lineage_of_none hc _
    rw [count_leave_of_none t hw hc, weight, weight, lineage_leave t hw, hlin]
    rfl
  | some id =>
    rw [count_leave_of_some t hw hc]
    by_cases hl : (w.store.chain id).level = w.stack.level
    -- The subtraction does not truncate: a chain holds what the one below it holds.
    · have hsum : Int32.ofNat (w.weight name) =
          Int32.ofNat (w.weight name - (w.leave t).weight name) +
            Int32.ofNat ((w.leave t).weight name) := by
        rw [← Int32.ofNat_add, Nat.sub_add_cancel (weight_leave_le t hw name)]
      rw [if_pos hl, surplus_eq t hw hc hl, hsum]
      grind
    · have hlin : w.lineage name = w.store.lineage id := ScopeStack.lineage_of_some hc _
      have hsame : (w.leave t).weight name = w.weight name := by
        rw [weight, weight, lineage_leave t hw, hlin, Store.lineage_eq_cons]
        simp [Lineage.popped, hl]
      rw [if_neg hl, hsame]
      grind

theorem level_leave {level : Level} (h0 : 0 < level.toNat) :
    (level - 1).toNat + 1 = level.toNat := by
  have h := UInt32.toNat_sub_of_le level 1 (by rw [UInt32.le_iff_toNat_le]; exact h0)
  rw [h]
  exact Nat.sub_add_cancel h0

theorem shed_leave (t : Caller) (hw : w.Sound) (h0 : 0 < w.stack.level.toNat) :
    Shed 1 w (w.leave t) := by
  obtain ⟨hchains, hjournal, hsize⟩ := revert_frame w.stack.level w.store w.stack.chains
  have hlevel := level_leave h0
  have hfoot : ∀ name, ∀ p ∈ (w.leave t).lineage name, p ∈ w.lineage name := by
    intro name p hp
    rw [lineage_leave t hw] at hp
    exact (Lineage.popped_sublist _ _).subset hp
  refine
    { level := hlevel, maxDepth := rfl, chains := hchains, counters := rfl, footprint := hfoot
      verbosity := ?_, active := ?_, counted := count_leave t hw, books := ?_
      sound := ⟨?_, ⟨?_, hw.ledger.injective⟩, ?_, ?_, ?_⟩ }
  · exact (revert_keys w.stack.level w.store w.stack.chains).nodup hw.keys
  · intro n k hn
    have hb := hw.ledger.bounded hn
    rw [← hsize] at hb
    exact hb
  · intro name
    rw [lineage_leave t hw]
    exact Lineage.popped_linked _ (hw.linked name)
  · intro name
    rw [lineage_leave t hw]
    have hs := Lineage.popped_sloped (hw.sloped name)
    have he : (w.leave t).stack.level.toNat = w.stack.level.toNat - 1 := by
      show (w.stack.level - 1).toNat = _
      omega
    rw [he]
    exact hs
  · intro name p hp
    show p.1.number < (revert w.stack.level w.store w.stack.chains).1.chains.size
    rw [hchains]
    exact hw.bounded name p (hfoot name p hp)
  · refine (Journal.verbosity_note _ _ _).trans ?_
    rw [hjournal]
  · show w.ledger.active - 1 + UInt64.ofNat 1 = _
    have h1 : UInt64.ofNat 1 = 1 := rfl
    rw [h1]
    grind
  · refine ⟨le_of_eq hsize.symm, ?_, fun h => h, Or.inl⟩
    intro k _ hn
    apply counter_revert_of_ne
    intro p hp e
    exact hn p.1 (e ▸ hw.counter_of_mem hp)

theorem shed_leaveTimes (t : Caller) (n : Nat) (hw : w.Sound) (hn : n ≤ w.stack.level.toNat) :
    Shed n w (leaveTimes t n w) := by
  induction n generalizing w with
  | zero => exact Shed.refl hw
  | succ n ih =>
    have h1 := shed_leave t hw (by omega)
    have hl := h1.level
    have h2 := ih h1.sound (by omega)
    have h := h1.trans h2
    rw [Nat.add_comm 1 n] at h
    exact h

/-- Destroying a stack leaves all scopes that are still open on it. -/
theorem shed_destroy (t : Caller) (hw : w.Sound) :
    Shed w.stack.level.toNat w (w.destroy t) := by
  unfold destroy
  by_cases h : w.stack.level = 0
  · have hz : w.stack.level.toNat = 0 := by rw [h]; rfl
    simp only [h, if_true]
    exact (Shed.refl hw).note t _
  · simp only [h, if_false]
    have h1 := (Shed.refl hw).note t (.stackAbandoned w.stack.id w.stack.level)
    have h2 := h1.trans (shed_leaveTimes t _ h1.sound (le_refl _))
    rw [Nat.zero_add] at h2
    exact h2.note t _

structure Entered (w w' : Site) : Prop where
  sound : w'.Sound
  level : w'.stack.level.toNat = w.stack.level.toNat + 1
  maxDepth : w'.stack.maxDepth = w.stack.maxDepth
  verbosity : w'.store.journal.verbosity = w.store.journal.verbosity
  active : w'.ledger.active = w.ledger.active + 1
  chains : w'.store.chains = w.store.chains
  counters : w'.store.counters = w.store.counters
  names : w'.ledger.counters = w.ledger.counters
  lineage : w'.lineage = w.lineage
  owns : ∀ j, ¬ w'.Owns j

theorem full_iff : w.full = true ↔
    w.stack.maxDepth ≠ 0 ∧ w.stack.maxDepth.toNat ≤ w.stack.level.toNat := by
  simp [full, UInt32.le_iff_toNat_le]

theorem enter_full (t : Caller) (h : w.full = true) :
    w.enter t = (⟨(), some .nestingTooDeep⟩,
      { w with store := w.store.refuse t w.stack.id (.atMaximum w.stack.level) }) := by
  rw [enter_eq, if_pos h]
  rfl

theorem level_enter {level : Level} (h : level.toNat + 1 < 2 ^ 32) :
    (level + 1).toNat = level.toNat + 1 := by
  rw [UInt32.toNat_add]
  exact Nat.mod_eq_of_lt h

theorem enter_of_not_full (t : Caller) (h : ¬ w.full = true) (hw : w.Sound)
    (hl : w.stack.maxDepth = 0 → w.stack.level.toNat + 1 < 2 ^ 32) :
    (w.enter t).1 = .success () ∧ Entered w (w.enter t).2 := by
  rw [enter_eq, if_neg h]
  have hbound : w.stack.level.toNat + 1 < 2 ^ 32 := by
    by_cases h0 : w.stack.maxDepth = 0
    · exact hl h0
    · have hlt : ¬ w.stack.maxDepth.toNat ≤ w.stack.level.toNat := fun hle =>
        h (full_iff.2 ⟨h0, hle⟩)
      have hmax := w.stack.maxDepth.toNat_lt
      omega
  have hlevel := level_enter hbound
  refine ⟨rfl, ?_⟩
  have hsloped : ∀ name, (w.lineage name).Sloped (w.stack.level + 1).toNat := fun name =>
    Lineage.sloped_mono (hw.sloped name) (by omega)
  refine
    { level := hlevel, maxDepth := rfl, active := rfl, chains := rfl, counters := rfl, names := rfl
      lineage := rfl, verbosity := Journal.verbosity_note _ _ _
      sound := ⟨hw.keys, ⟨hw.ledger.bounded, hw.ledger.injective⟩, hw.linked, hsloped, hw.bounded⟩
      owns := ?_ }
  rintro j ⟨name, hc, hlev⟩
  change w.stack.chain? name = some j at hc
  change (w.store.chain j).level = w.stack.level + 1 at hlev
  have hs := hw.sloped name
  rw [lineage, ScopeStack.lineage_of_some hc, Store.lineage_eq_cons] at hs
  have hle := hs.2.1
  simp only [hlev, hlevel] at hle
  omega

end Site

end ScopedMethods

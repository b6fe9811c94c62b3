import ScopedMethods.Proofs.Ancestors
import ScopedMethods.Proofs.Growth

/-!
# Offering one method

The chain of a name at the present level is found or made, and the candidate
takes its place in it. Levels and candidates along the lineage of the name then
are what the tree says of the ones before.
-/

set_option autoImplicit false

namespace ScopedMethods

/-- Levels and candidates along a lineage, the nearest chain first. -/
abbrev Ladder := List (Level × List Candidate)

namespace Ladder

def entries : Ladder → List Candidate
  | [] => []
  | r :: _ => r.2

def add (tree : TypeTree) (level : Level) (new : Candidate) : Ladder → Ladder
  | [] => [(level, tree.insert new [])]
  | r :: below =>
    if r.1 = level then (level, tree.insert new r.2) :: below
    else (level, tree.insert new r.2) :: r :: below

theorem entries_add (tree : TypeTree) (level : Level) (new : Candidate) (l : Ladder) :
    (l.add tree level new).entries = tree.insert new l.entries := by
  cases l with
  | nil => rfl
  | cons r below =>
    simp only [add]
    split <;> rfl

end Ladder

def Lineage.ladder (l : Lineage) : Ladder := l.map fun p => (p.2.level, p.2.entries)

theorem Lineage.entries_ladder (l : Lineage) : l.ladder.entries = l.entries := by
  cases l <;> rfl

structure Ledger.Used (name : String) (s : Store) (l : Ledger) (k : CounterId) (s' : Store)
    (l' : Ledger) : Prop where
  sound : l'.Sound s'
  found : l'.counters.get? name = some k
  extends_ : Ledger.Extends s l s' l'
  count : ∀ n, l'.count s' n = l.count s n
  chains : s'.chains = s.chains
  verbosity : s'.journal.verbosity = s.journal.verbosity
  active : l'.active = l.active

theorem Ledger.used (t : Caller) (name : String) {s : Store} {l : Ledger} (hl : l.Sound s) :
    Ledger.Used name s l (l.usage t name s).1 (l.usage t name s).2.1 (l.usage t name s).2.2 := by
  unfold Ledger.usage
  cases h : l.counters.get? name with
  | some k => exact ⟨hl, h, Ledger.Extends.refl s l, fun _ => rfl, rfl, rfl, rfl⟩
  | none =>
    have hget : ∀ n, (l.counters.set name ⟨s.counters.size⟩).get? n =
        if name = n then some ⟨s.counters.size⟩ else l.counters.get? n :=
      fun n => Slots.get?_set name n _ _
    refine ⟨⟨?_, ?_⟩, by simp [Store.newCounter, hget], ⟨?_, ?_, ?_, ?_⟩, ?_, rfl,
      Journal.verbosity_note _ _ _, rfl⟩
    · intro n k hn
      simp only [Store.newCounter, hget] at hn
      simp only [Store.note, Store.newCounter, Array.size_push]
      split at hn
      · cases hn; exact Nat.lt_succ_self _
      · exact (hl.bounded hn).trans (Nat.lt_succ_self _)
    · intro n m k hn hm
      simp only [Store.newCounter, hget] at hn hm
      split at hn <;> split at hm
      · simp_all
      · cases hn; exact absurd (hl.bounded hm) (Nat.lt_irrefl _)
      · cases hm; exact absurd (hl.bounded hn) (Nat.lt_irrefl _)
      · exact hl.injective hn hm
    · simp [Store.note, Store.newCounter]
    · intro k _ _
      exact Store.counter_newCounter s k
    · intro n k hn
      have hne : name ≠ n := fun e => by subst e; simp [h] at hn
      simp [Store.newCounter, hget, hne, hn]
    · intro n k hn
      simp only [Store.newCounter, hget] at hn
      split at hn
      · cases hn; exact Or.inr (le_refl _)
      · exact Or.inl hn
    · intro n
      simp only [Ledger.count, Store.newCounter, hget]
      by_cases hne : name = n
      · subst hne
        simp [h, Store.counter, Store.note]
      · simp only [if_neg hne]
        cases hn : l.counters.get? n with
        | none => rfl
        | some k => exact Store.counter_newCounter s k

namespace Site

variable {w : Site}

def ladder (w : Site) (name : String) : Ladder := (w.lineage name).ladder

def entries (w : Site) (name : String) : List Candidate := (w.lineage name).entries

/-- What is so once the chain of a name at the present level was found or made. -/
structure Touched (name : String) (w : Site) (id : ChainId) (w' : Site) : Prop where
  advance : w.Advance w'
  chain : w'.stack.chain? name = some id
  level : (w'.store.chain id).level = w'.stack.level
  entries : (w'.store.chain id).entries = w.entries name
  below : (w'.lineage name).popped w.stack.level = (w.lineage name).popped w.stack.level
  others : ∀ n, name ≠ n → w'.lineage n = w.lineage n

theorem advance_used (hw : w.Sound) {name : String} {k : CounterId} {s : Store} {l : Ledger}
    (hu : Ledger.Used name w.store w.ledger k s l) :
    w.Advance { w with store := s, ledger := l } ∧
      ∀ n, ({ w with store := s, ledger := l } : Site).lineage n = w.lineage n := by
  have hc : ∀ j, s.chain j = w.store.chain j := fun j => by simp [Store.chain, hu.chains]
  have hlin : ∀ n, ({ w with store := s, ledger := l } : Site).lineage n = w.lineage n := by
    intro n
    apply ScopeStack.lineage_congr rfl
    intro p hp
    rw [hc, chain_of_mem_lineage hp]
  refine ⟨?_, hlin⟩
  exact
    { level := rfl, maxDepth := rfl, active := hu.active, verbosity := hu.verbosity
      size := by rw [hu.chains]
      sound :=
        { keys := hw.keys
          ledger := hu.sound
          linked := fun n => by
            rw [hlin]
            exact Lineage.linked_kept (hw.linked n) hu.extends_.kept
          sloped := fun n => by rw [hlin]; exact hw.sloped n
          bounded := fun n p hp => by
            rw [hlin] at hp
            rw [hu.chains]
            exact hw.bounded n p hp }
      frame := by
        intro j _ hno
        refine ⟨hc j, ?_⟩
        rintro ⟨n, hn, hlev⟩
        exact hno ⟨n, hn, by rw [← hc j]; exact hlev⟩
      popped := fun n => by rw [hlin]
      footprint := fun n p hp => by
        rw [hlin] at hp
        exact Or.inl (List.mem_map.2 ⟨p, hp, rfl⟩)
      books := hu.extends_
      counted := fun n => by
        rw [weight, weight, hlin]
        exact congrArg (· + _) (hu.count n) }

theorem touched_push (hw : w.Sound) (h0 : 0 < w.stack.level.toNat) {name : String} {c : Chain}
    (hn : c.name = name) (hl : c.level = w.stack.level) (he : c.entries = w.entries name)
    (hk : some c.counter = w.ledger.counters.get? name) (hs : c.shadows = (w.lineage name).ids)
    (htop : (w.lineage name).popped w.stack.level = w.lineage name) (t : Caller) (e : Event) :
    Touched name w ⟨w.store.chains.size⟩ ((w.push name c).note t e) where
  advance := ((renewed_push hw hn hl h0 he hk hs htop).advance hw).note t e
  chain := by
    show (w.push name c).stack.chain? name = _
    rw [chain?_push, if_pos rfl]
  level := by
    show ((w.push name c).store.chain _).level = _
    rw [chain_push_self]
    exact hl
  entries := by
    show ((w.push name c).store.chain _).entries = _
    rw [chain_push_self]
    exact he
  below := by
    rw [lineage_note, lineage_push_self hw hs, Lineage.popped_cons (by exact hl), htop]
  others := fun n hne => by rw [lineage_note, lineage_push_ne hw hne]

theorem Touched.after {name : String} {id : ChainId} {w₁ w₂ : Site} (ha : w.Advance w₁)
    (hl : ∀ n, w₁.lineage n = w.lineage n) (ht : Touched name w₁ id w₂) : Touched name w id w₂ where
  advance := ha.trans ht.advance
  chain := ht.chain
  level := ht.level
  entries := by rw [ht.entries, Site.entries, Site.entries, hl]
  below := by
    have hb := ht.below
    rw [hl, ha.level] at hb
    exact hb
  others := fun n hne => by rw [ht.others n hne, hl]

theorem touch_spec (hw : w.Sound) (h0 : 0 < w.stack.level.toNat) (t : Caller) (name : String) :
    Touched name w (w.touch t name).1 (w.touch t name).2 := by
  unfold touch
  cases hc : w.stack.chain? name with
  | some id =>
    have hlin : w.lineage name = w.store.lineage id := ScopeStack.lineage_of_some hc _
    by_cases hlev : (w.store.chain id).level = w.stack.level
    · simp only [hlev, if_true]
      exact ⟨Advance.refl hw, hc, hlev, by rw [entries, hlin]; rfl, rfl, fun _ _ => rfl⟩
    -- A chain of an outer level stays as it is: a copy takes its place.
    · simp only [hlev, if_false]
      have hlink := hw.linked name
      rw [hlin] at hlink
      apply touched_push (c := ⟨name, w.stack.level, (w.store.chain id).entries,
        (w.store.chain id).counter, id :: (w.store.chain id).shadows⟩) hw h0 rfl rfl
      · rw [entries, hlin]
        rfl
      · exact hlink.2.1
      · rw [hlin, Store.lineage_eq_cons]
        simp [Lineage.ids, Function.comp_def]
      · rw [hlin, Store.lineage_eq_cons]
        simp [Lineage.popped, hlev]
  | none =>
    have hlin : w.lineage name = [] := ScopeStack.lineage_of_none hc _
    have hu := Ledger.used t name hw.ledger
    obtain ⟨ha, hl⟩ := advance_used hw hu
    refine Touched.after ha hl (touched_push
      (c := ⟨name, w.stack.level, [], (w.ledger.usage t name w.store).1, []⟩)
      ha.sound h0 rfl rfl ?_ hu.found.symm ?_ ?_ t _)
    · rw [entries, hl, hlin]
      rfl
    · rw [hl, hlin]
      rfl
    · rw [hl, hlin]
      rfl

theorem lineage_of_chain? {name : String} {id : ChainId} (hc : w.stack.chain? name = some id)
    (hl : (w.store.chain id).level = w.stack.level) :
    w.lineage name = (id, w.store.chain id) :: (w.lineage name).popped w.stack.level := by
  rw [lineage, ScopeStack.lineage_of_some hc, Store.lineage_eq_cons]
  rw [Lineage.popped_cons (by exact hl)]

theorem ladder_add (tree : TypeTree) (level : Level) (new : Candidate) (l : Lineage) :
    l.ladder.add tree level new =
      (level, tree.insert new l.entries) :: (l.popped level).ladder := by
  cases l with
  | nil => rfl
  | cons p below =>
    simp only [Lineage.ladder, List.map_cons, Ladder.add, Lineage.popped, Lineage.entries]
    split <;> simp

theorem ladder_offered {m : Method} {id : ChainId} {w₁ : Site} {tree : TypeTree}
    (ht : Touched m.name w id w₁) (n : String) :
    (w₁.grow id (tree.insert (.ofMethod m) (w.entries m.name))).ladder n =
      if m.name = n then (w.ladder n).add tree w.stack.level (.ofMethod m) else w.ladder n := by
  by_cases hne : m.name = n
  · subst hne
    obtain ⟨below, hlin, hlin'⟩ := lineage_grow_self
      (tree.insert (.ofMethod m) (w.entries m.name)) ht.advance.sound ht.chain
    have hb := lineage_of_chain? ht.chain ht.level
    rw [hlin, ht.advance.level] at hb
    have hbelow : below = (w.lineage m.name).popped w.stack.level := by
      rw [← ht.below, hlin]
      exact (List.cons.inj hb).2
    rw [if_pos rfl, ladder, ladder, hlin', ladder_add, ← hbelow]
    simp [Lineage.ladder, ht.level, ht.advance.level, entries]
  · rw [if_neg hne, ladder, ladder, lineage_grow_ne ht.advance.sound ht.chain hne,
      ht.others n hne]

/-- A method offered: the outcome, and the lineages afterwards. -/
theorem offer_spec (c : Catalog) (t : Caller) (m : Method) (hw : w.Sound)
    (h0 : 0 < w.stack.level.toNat) :
    w.Advance (w.offer c t m).2 ∧
      (w.offer c t m).1 =
        c.answered (c.tree.placing (.ofMethod m) (w.entries m.name)) () ∧
      ((w.offer c t m).1 = .ok () → ∀ n, (w.offer c t m).2.ladder n =
        if m.name = n then (w.ladder n).add c.tree w.stack.level (.ofMethod m)
        else w.ladder n) := by
  have ht := touch_spec hw h0 t m.name
  unfold offer
  generalize w.touch t m.name = r at ht
  obtain ⟨id, w₁⟩ := r
  simp only [Store.add, ht.entries, Catalog.place_eq] at ht ⊢
  cases hq : c.answered (c.tree.placing (.ofMethod m) (w.entries m.name))
      (c.tree.insert (.ofMethod m) (w.entries m.name)) with
  | error f =>
    rw [← Catalog.answered_map c _ _ (fun _ => ()), hq]
    exact ⟨ht.advance, rfl, fun h => by simp at h⟩
  | ok es =>
    have hes := ((Catalog.answered_ok_iff c _ _ _).1 hq).2
    subst hes
    rw [← Catalog.answered_map c _ _ (fun _ => ()), hq]
    have hlen := TypeTree.length_insert c.tree (.ofMethod m) (w.entries m.name)
    have hsub := TypeTree.sublist_insert c.tree (.ofMethod m) (w.entries m.name)
    have hlad : ∀ n, (w₁.grow id (c.tree.insert (.ofMethod m) (w.entries m.name))).ladder n =
        if m.name = n then (w.ladder n).add c.tree w.stack.level (.ofMethod m)
        else w.ladder n := by
      intro n
      exact ladder_offered ht n
    generalize c.tree.insert (.ofMethod m) (w.entries m.name) = es at hlen hsub hlad
    have hg := renewed_grow ht.advance.sound ht.chain ht.level
      (by rw [ht.entries]; exact hlen) (by rw [ht.entries]; exact hsub)
    exact ⟨(ht.advance.trans (hg.advance ht.advance.sound)).note t _, rfl, fun _ n => hlad n⟩

end Site

end ScopedMethods

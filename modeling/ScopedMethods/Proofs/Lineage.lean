import ScopedMethods.Proofs.Tables
import ScopedMethods.ScopeStack

/-!
# Lineages

A chain with the chains that it shadows, read from the store. In a sound stack
every lineage keeps one name and one counter, its levels fall and its entries
only grow from one chain to the next.
-/

set_option autoImplicit false

namespace ScopedMethods

/-- A chain and those it shadows, the nearest first, with their identities. -/
abbrev Lineage := List (ChainId × Chain)

namespace Lineage

def ids (l : Lineage) : List ChainId := l.map Prod.fst

def entries : Lineage → List Candidate
  | [] => []
  | p :: _ => p.2.entries

def popped (level : Level) : Lineage → Lineage
  | [] => []
  | p :: below => if p.2.level = level then below else p :: below

def Linked (name : String) (counter : Option CounterId) : Lineage → Prop
  | [] => True
  | p :: below => p.2.name = name ∧ some p.2.counter = counter ∧ p.2.shadows = ids below ∧
      (entries below).Sublist p.2.entries ∧ Linked name counter below

def Sloped (n : Nat) : Lineage → Prop
  | [] => True
  | p :: below => 0 < p.2.level.toNat ∧ p.2.level.toNat ≤ n ∧ Sloped (p.2.level.toNat - 1) below

theorem sloped_mono {n m : Nat} {l : Lineage} (h : l.Sloped n) (hm : n ≤ m) : l.Sloped m := by
  cases l with
  | nil => trivial
  | cons p below => exact ⟨h.1, h.2.1.trans hm, h.2.2⟩

theorem sloped_zero {l : Lineage} (h : l.Sloped 0) : l = [] := by
  cases l with
  | nil => rfl
  | cons p below =>
    have h1 := h.1
    have h2 := h.2.1
    omega

theorem linked_name {name : String} {k : Option CounterId} {l : Lineage} (h : l.Linked name k)
    {p : ChainId × Chain} (hp : p ∈ l) : p.2.name = name ∧ some p.2.counter = k := by
  induction l with
  | nil => simp at hp
  | cons q below ih =>
    rcases List.mem_cons.1 hp with rfl | hp
    · exact ⟨h.1, h.2.1⟩
    · exact ih h.2.2.2.2 hp

theorem linked_shadows {name : String} {k : Option CounterId} {l : Lineage} (h : l.Linked name k)
    {p : ChainId × Chain} (hp : p ∈ l) : p.2.shadows.length < l.length := by
  induction l with
  | nil => simp at hp
  | cons q below ih =>
    rcases List.mem_cons.1 hp with rfl | hp
    · simp [h.2.2.1, ids]
    · exact (ih h.2.2.2.2 hp).trans (Nat.lt_succ_self _)

theorem popped_sublist (level : Level) (l : Lineage) : (l.popped level).Sublist l := by
  cases l with
  | nil => exact List.Sublist.refl _
  | cons p below =>
    simp only [popped]
    split
    · exact List.sublist_cons_self _ _
    · exact List.Sublist.refl _

theorem popped_linked {name : String} {k : Option CounterId} (level : Level) {l : Lineage}
    (h : l.Linked name k) : (l.popped level).Linked name k := by
  cases l with
  | nil => trivial
  | cons p below =>
    simp only [popped]
    split
    · exact h.2.2.2.2
    · exact h

theorem popped_sloped {level : Level} {l : Lineage} (h : l.Sloped level.toNat) :
    (l.popped level).Sloped (level.toNat - 1) := by
  cases l with
  | nil => trivial
  | cons p below =>
    simp only [popped]
    split
    · rename_i hp
      simpa [hp] using h.2.2
    · rename_i hp
      have hne : p.2.level.toNat ≠ level.toNat := fun e => hp (UInt32.toNat_inj.1 e)
      have h2 := h.2.1
      exact ⟨h.1, by omega, h.2.2⟩

theorem popped_of_sloped {level : Level} {l : Lineage} {n : Nat} (h : l.Sloped n)
    (hn : n < level.toNat) : l.popped level = l := by
  cases l with
  | nil => rfl
  | cons p below =>
    have h2 := h.2.1
    have hne : p.2.level ≠ level := fun e => by subst e; omega
    simp [popped, hne]

theorem popped_cons {level : Level} {p : ChainId × Chain} (h : p.2.level = level) (l : Lineage) :
    Lineage.popped level (p :: l) = l := by
  simp [popped, h]

theorem entries_popped_sublist {name : String} {k : Option CounterId} (level : Level)
    {l : Lineage} (h : l.Linked name k) : (l.popped level).entries.Sublist l.entries := by
  cases l with
  | nil => exact List.Sublist.refl _
  | cons p below =>
    simp only [popped]
    split
    · exact h.2.2.2.1
    · exact List.Sublist.refl _

end Lineage

def Store.lineage (s : Store) (id : ChainId) : Lineage :=
  (id :: (s.chain id).shadows).map fun i => (i, s.chain i)

def ScopeStack.lineage (st : ScopeStack) (s : Store) (name : String) : Lineage :=
  (st.chain? name).elim [] s.lineage

namespace Store

theorem lineage_eq_cons (s : Store) (id : ChainId) :
    s.lineage id = (id, s.chain id) :: (s.chain id).shadows.map fun i => (i, s.chain i) := rfl

theorem chain_of_mem_lineage {s : Store} {id : ChainId} {p : ChainId × Chain}
    (h : p ∈ s.lineage id) : s.chain p.1 = p.2 := by
  obtain ⟨i, -, rfl⟩ := List.mem_map.1 h
  rfl

theorem lineage_congr {s s' : Store} {id : ChainId}
    (h : ∀ p ∈ s.lineage id, s'.chain p.1 = p.2) : s'.lineage id = s.lineage id := by
  have hid : s'.chain id = s.chain id := h (id, s.chain id) List.mem_cons_self
  unfold lineage
  rw [hid]
  apply List.map_congr_left
  intro i hi
  have := h (i, s.chain i) (List.mem_map.2 ⟨i, hi, rfl⟩)
  rw [this]

end Store

namespace ScopeStack

theorem lineage_of_none {st : ScopeStack} {name : String} (h : st.chain? name = none) (s : Store) :
    st.lineage s name = [] := by
  simp [lineage, h]

theorem lineage_of_some {st : ScopeStack} {name : String} {id : ChainId}
    (h : st.chain? name = some id) (s : Store) : st.lineage s name = s.lineage id := by
  simp [lineage, h]

theorem chain?_eq_head (st : ScopeStack) (s : Store) (name : String) :
    st.chain? name = (st.lineage s name).ids.head? := by
  cases h : st.chain? name with
  | none => simp [lineage_of_none h, Lineage.ids]
  | some id => simp [lineage_of_some h, Lineage.ids, Store.lineage_eq_cons]

theorem chain_of_mem_lineage {st : ScopeStack} {s : Store} {name : String} {p : ChainId × Chain}
    (h : p ∈ st.lineage s name) : s.chain p.1 = p.2 := by
  cases hc : st.chain? name with
  | none => simp [lineage_of_none hc] at h
  | some id =>
    rw [lineage_of_some hc] at h
    exact Store.chain_of_mem_lineage h

theorem lineage_congr {st st' : ScopeStack} {s s' : Store} {name : String}
    (hc : st'.chain? name = st.chain? name)
    (h : ∀ p ∈ st.lineage s name, s'.chain p.1 = p.2) :
    st'.lineage s' name = st.lineage s name := by
  unfold lineage at h ⊢
  rw [hc]
  cases hid : st.chain? name with
  | none => rfl
  | some id =>
    rw [hid] at h
    exact Store.lineage_congr h

end ScopeStack

/-- Counters exist, and names have counters of their own. -/
structure Ledger.Sound (s : Store) (l : Ledger) : Prop where
  bounded : ∀ {n : String} {k : CounterId}, l.counters.get? n = some k → k.number < s.counters.size
  injective : ∀ {n m : String} {k : CounterId},
    l.counters.get? n = some k → l.counters.get? m = some k → n = m

namespace Site

def lineage (w : Site) (name : String) : Lineage := w.stack.lineage w.store name

structure Sound (w : Site) : Prop where
  keys : w.stack.chains.Distinct
  ledger : w.ledger.Sound w.store
  linked : ∀ name, (w.lineage name).Linked name (w.ledger.counters.get? name)
  sloped : ∀ name, (w.lineage name).Sloped w.stack.level.toNat
  bounded : ∀ name, ∀ p ∈ w.lineage name, p.1.number < w.store.chains.size

def weight (w : Site) (name : String) : Nat := (w.lineage name).entries.length

def count (w : Site) (name : String) : Int32 := w.ledger.count w.store name

/-- The chains of the present level that are in use. -/
def Owns (w : Site) (id : ChainId) : Prop :=
  ∃ name, w.stack.chain? name = some id ∧ (w.store.chain id).level = w.stack.level

theorem sound_note {w : Site} (h : w.Sound) (t : Caller) (e : Event) : (w.note t e).Sound :=
  ⟨h.keys, ⟨h.ledger.bounded, h.ledger.injective⟩, h.linked, h.sloped, h.bounded⟩

theorem lineage_note (w : Site) (t : Caller) (e : Event) : (w.note t e).lineage = w.lineage := rfl

theorem chain_of_mem_lineage {w : Site} {name : String} {p : ChainId × Chain}
    (h : p ∈ w.lineage name) : w.store.chain p.1 = p.2 :=
  ScopeStack.chain_of_mem_lineage h

theorem name_of_mem_lineage {w : Site} (hw : w.Sound) {name : String} {p : ChainId × Chain}
    (h : p ∈ w.lineage name) : (w.store.chain p.1).name = name := by
  rw [chain_of_mem_lineage h]
  exact (Lineage.linked_name (hw.linked name) h).1

theorem lineage_eq_nil {w : Site} (hw : w.Sound) (h : w.stack.level = 0) (name : String) :
    w.lineage name = [] := by
  have hs := hw.sloped name
  rw [h] at hs
  exact Lineage.sloped_zero hs

end Site

end ScopedMethods

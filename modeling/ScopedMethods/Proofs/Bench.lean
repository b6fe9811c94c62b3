import ScopedMethods.Proofs.Work

/-!
# Stacks over one ledger

Any number of stacks share a store, a ledger and a tally. Their lineages have
no chain in common, so work on one stack leaves the others alone; the tally and
the counts go with all of them.
-/

set_option autoImplicit false

namespace ScopedMethods

def ScopeStack.mapped (st : ScopeStack) (s : Store) (name : String) : Nat :=
  (st.chain? name).elim 0 fun id => (s.chain id).size

theorem ScopeStack.mapped_eq (st : ScopeStack) (s : Store) (name : String) :
    st.mapped s name = (st.lineage s name).entries.length := by
  rw [mapped, lineage]
  cases st.chain? name <;> rfl

/-- Stacks under keys over a store and a ledger. -/
structure Bench (κ : Type) where
  store : Store
  ledger : Ledger
  table : Slots κ ScopeStack

namespace Bench

variable {κ : Type} [DecidableEq κ]

def site (b : Bench κ) (st : ScopeStack) : Site := ⟨b.store, b.ledger, st⟩

def put (b : Bench κ) (k : κ) (w : Site) : Bench κ := ⟨w.store, w.ledger, b.table.set k w.stack⟩

def inEffect (b : Bench κ) (name : String) : Nat :=
  Slots.total (fun st => st.mapped b.store name) b.table

def openScopes (b : Bench κ) : Nat := Slots.total (fun st => st.level.toNat) b.table

structure Sound (b : Bench κ) : Prop where
  table : b.table.Distinct
  ledger : b.ledger.Sound b.store
  sites : ∀ {k : κ} {st : ScopeStack}, b.table.get? k = some st → (b.site st).Sound
  apart : ∀ {i j : κ} {st st' : ScopeStack}, i ≠ j → b.table.get? i = some st →
    b.table.get? j = some st' → ∀ n m : String, ∀ c ∈ ((b.site st).lineage n).ids,
      c ∉ ((b.site st').lineage m).ids
  counted : ∀ name, b.ledger.count b.store name = Int32.ofNat (b.inEffect name)
  active : b.ledger.active = UInt64.ofNat b.openScopes

variable {b : Bench κ} {k : κ} {st : ScopeStack} {w : Site}

theorem sound_empty (s : Store) (id : Nat) : (⟨s, Ledger.new id, []⟩ : Bench κ).Sound where
  table := Slots.distinct_nil
  ledger := ⟨(fun h => nomatch h), (fun h => nomatch h)⟩
  sites := fun h => nomatch h
  apart := fun _ h => nomatch h
  counted := fun _ => rfl
  active := rfl

theorem lineage_other (hb : b.Sound) (hst : b.table.get? k = some st) (hw : Site.Work (b.site st) w)
    {j : κ} {st' : ScopeStack} (hj : k ≠ j) (hst' : b.table.get? j = some st') (n : String) :
    st'.lineage w.store n = st'.lineage b.store n := by
  apply ScopeStack.lineage_congr rfl
  intro p hp
  have hlt : p.1.number < b.store.chains.size := (hb.sites hst').bounded n p hp
  have hnot : ∀ m, p.1 ∉ ((b.site st).lineage m).ids := fun m hm =>
    hb.apart hj hst hst' m n p.1 hm (Site.mem_ids hp)
  rw [hw.frame hlt hnot]
  exact ScopeStack.chain_of_mem_lineage hp

theorem site_other (hb : b.Sound) (hst : b.table.get? k = some st) (hw : Site.Work (b.site st) w)
    {j : κ} {st' : ScopeStack} (hj : k ≠ j) (hst' : b.table.get? j = some st') :
    (⟨w.store, w.ledger, st'⟩ : Site).Sound := by
  have hold := hb.sites hst'
  have hlin := lineage_other hb hst hw hj hst'
  refine ⟨hold.keys, hw.sound.ledger, ?_, ?_, ?_⟩
  · intro n
    have hn := hold.linked n
    show (st'.lineage w.store n).Linked n (w.ledger.counters.get? n)
    rw [hlin]
    exact Lineage.linked_kept hn hw.books.kept
  · intro n
    show (st'.lineage w.store n).Sloped _
    rw [hlin]
    exact hold.sloped n
  · intro n p hp
    change p ∈ st'.lineage w.store n at hp
    rw [hlin] at hp
    exact (hold.bounded n p hp).trans_le hw.size

theorem Sound.inEffect_put (hb : b.Sound) (hst : b.table.get? k = some st)
    (hw : Site.Work (b.site st) w) (name : String) :
    (b.put k w).inEffect name + (b.site st).weight name = b.inEffect name + w.weight name := by
  have hother : ∀ p ∈ b.table, p.1 ≠ k → p.2.mapped w.store name = p.2.mapped b.store name := by
    intro p hp hk
    rw [ScopeStack.mapped_eq, ScopeStack.mapped_eq,
      lineage_other hb hst hw (Ne.symm hk) (Slots.get?_of_mem hb.table hp)]
  have h := Slots.total_set_congr (f := fun x : ScopeStack => x.mapped w.store name)
    (g := fun x : ScopeStack => x.mapped b.store name) hb.table hst hother w.stack
  rw [ScopeStack.mapped_eq, ScopeStack.mapped_eq] at h
  exact h

theorem openScopes_put (hst : b.table.get? k = some st) (w : Site) :
    (b.put k w).openScopes + st.level.toNat = b.openScopes + w.stack.level.toNat := by
  have h := Slots.total_set (fun x : ScopeStack => x.level.toNat) k w.stack b.table
  rw [hst] at h
  exact h

theorem Sound.apart_put (hb : b.Sound) (hst : b.table.get? k = some st)
    (hw : Site.Work (b.site st) w) {j : κ} {st' : ScopeStack} (hj : k ≠ j)
    (hst' : b.table.get? j = some st') {n m : String} {c : ChainId} (hc : c ∈ (w.lineage n).ids) :
    c ∉ (st'.lineage w.store m).ids := by
  intro hm
  rw [lineage_other hb hst hw hj hst'] at hm
  obtain ⟨p, hp, rfl⟩ := List.mem_map.1 hc
  -- The chain was the stack's own, or it is younger than all chains of other stacks.
  rcases hw.footprint n p hp with ⟨n', hn'⟩ | hge
  · exact hb.apart hj hst hst' n' m _ hn' hm
  · obtain ⟨q, hq, hqp⟩ := List.mem_map.1 hm
    have hlt : q.1.number < b.store.chains.size := (hb.sites hst').bounded m q hq
    have hge' : b.store.chains.size ≤ p.1.number := hge
    rw [← hqp] at hge'
    omega

theorem Sound.counted_put (hb : b.Sound) (hst : b.table.get? k = some st)
    (hw : Site.Work (b.site st) w) (name : String) :
    w.count name = Int32.ofNat ((b.put k w).inEffect name) := by
  have h1 := hw.counted name
  have h2 : (b.site st).count name = Int32.ofNat (b.inEffect name) := hb.counted name
  have h3 : Int32.ofNat ((b.put k w).inEffect name) + Int32.ofNat ((b.site st).weight name) =
      Int32.ofNat (b.inEffect name) + Int32.ofNat (w.weight name) := by
    rw [← Int32.ofNat_add, ← Int32.ofNat_add]
    exact congrArg _ (hb.inEffect_put hst hw name)
  grind

theorem Sound.active_put (hb : b.Sound) (hst : b.table.get? k = some st)
    (hw : Site.Work (b.site st) w) : w.ledger.active = UInt64.ofNat (b.put k w).openScopes := by
  have h1 : w.ledger.active + UInt64.ofNat st.level.toNat =
      b.ledger.active + UInt64.ofNat w.stack.level.toNat := hw.active
  have h2 := hb.active
  have h3 : UInt64.ofNat (b.put k w).openScopes + UInt64.ofNat st.level.toNat =
      UInt64.ofNat b.openScopes + UInt64.ofNat w.stack.level.toNat := by
    rw [← UInt64.ofNat_add, ← UInt64.ofNat_add]
    exact congrArg _ (openScopes_put hst w)
  grind

/-- Work on one stack keeps the bench sound. -/
theorem Sound.put (hb : b.Sound) (hst : b.table.get? k = some st)
    (hw : Site.Work (b.site st) w) : (b.put k w).Sound where
  table := Slots.distinct_set _ _ hb.table
  ledger := hw.sound.ledger
  sites := by
    intro j x hx
    rcases Slots.get?_set_cases hx with ⟨-, rfl⟩ | ⟨hj, hx⟩
    · exact hw.sound
    · exact site_other hb hst hw hj hx
  apart := by
    intro i j x y hij hx hy n m c hc hm
    rcases Slots.get?_set_cases hx with ⟨rfl, rfl⟩ | ⟨hi, hx⟩ <;>
      rcases Slots.get?_set_cases hy with ⟨rfl, rfl⟩ | ⟨hj, hy⟩
    · exact hij rfl
    · exact hb.apart_put hst hw hj hy hc hm
    · exact hb.apart_put hst hw hi hx hm hc
    · change c ∈ (x.lineage w.store n).ids at hc
      change c ∈ (y.lineage w.store m).ids at hm
      rw [lineage_other hb hst hw hi hx] at hc
      rw [lineage_other hb hst hw hj hy] at hm
      exact hb.apart hij hx hy n m c hc hm
  counted := hb.counted_put hst hw
  active := hb.active_put hst hw

theorem Sound.inEffect_keeps (hb : b.Sound) {s : Store} (hk : b.store.Keeps s) (l : Ledger)
    (name : String) : (⟨s, l, b.table⟩ : Bench κ).inEffect name = b.inEffect name := by
  apply Slots.total_congr
  intro p hp
  rw [ScopeStack.mapped_eq, ScopeStack.mapped_eq,
    Site.lineage_keeps (hb.sites (Slots.get?_of_mem hb.table hp)) hk]

theorem Sound.keeps (hb : b.Sound) {s : Store} {l : Ledger} (hk : b.store.Keeps s)
    (hl : l.Sound s)
    (hkept : ∀ {n : String} {c : CounterId}, b.ledger.counters.get? n = some c →
      l.counters.get? n = some c)
    (hcount : ∀ n, l.count s n = b.ledger.count b.store n) (ha : l.active = b.ledger.active) :
    (⟨s, l, b.table⟩ : Bench κ).Sound := by
  have hsite : ∀ {k st}, b.table.get? k = some st →
      Site.Sound ⟨s, l, st⟩ ∧ st.lineage s = st.lineage b.store := fun hx =>
    Site.sound_keeps (hb.sites hx) hk hkept hl
  refine ⟨hb.table, hl, fun hx => (hsite hx).1, ?_, fun name => ?_, ?_⟩
  · intro i j x y hij hx hy n m c hc hm
    change c ∈ (x.lineage s n).ids at hc
    change c ∈ (y.lineage s m).ids at hm
    rw [(hsite hx).2] at hc
    rw [(hsite hy).2] at hm
    exact hb.apart hij hx hy n m c hc hm
  · rw [hb.inEffect_keeps hk, ← hb.counted]
    exact hcount name
  · rw [ha]
    exact hb.active

theorem Sound.same (hb : b.Sound) {s : Store} (hs : b.store.Same s) :
    (⟨s, b.ledger, b.table⟩ : Bench κ).Sound := by
  apply hb.keeps hs.keeps
  · constructor
    · intro n c hn
      have hlt := hb.ledger.bounded hn
      rwa [hs.counters]
    · exact hb.ledger.injective
  · exact fun hn => hn
  · intro n
    simp only [Ledger.count, hs.counter]
  · rfl

/-- While no scope is open nothing is in effect. -/
theorem Sound.resting (hb : b.Sound) (h : ∀ p ∈ b.table, p.2.level = 0) :
    (∀ name, b.inEffect name = 0) ∧ b.openScopes = 0 := by
  constructor
  · intro name
    apply Slots.total_eq_zero
    intro p hp
    have hw := hb.sites (Slots.get?_of_mem hb.table hp)
    have hl : p.2.lineage b.store name = [] := Site.lineage_eq_nil hw (h p hp) name
    rw [ScopeStack.mapped_eq, hl]
    rfl
  · apply Slots.total_eq_zero
    intro p hp
    rw [h p hp]
    rfl

theorem Sound.new (hb : b.Sound) (hn : b.table.get? k = none) (id : Nat) (maxDepth : Level) :
    let b' : Bench κ := ⟨b.store, b.ledger, b.table.set k (ScopeStack.new id maxDepth)⟩
    b'.Sound ∧ (∀ name, b'.inEffect name = b.inEffect name) ∧ b'.openScopes = b.openScopes := by
  have htotal : ∀ f : ScopeStack → Nat, f (ScopeStack.new id maxDepth) = 0 →
      Slots.total f (b.table.set k (ScopeStack.new id maxDepth)) = Slots.total f b.table := by
    intro f hf
    have h := Slots.total_set f k (ScopeStack.new id maxDepth) b.table
    rw [hn] at h
    simpa [hf] using h
  refine ⟨⟨Slots.distinct_set _ _ hb.table, hb.ledger, fun {j x} hx => ?_, ?_, fun name => ?_, ?_⟩,
    fun name => htotal _ rfl, htotal _ rfl⟩
  · rcases Slots.get?_set_cases hx with ⟨-, rfl⟩ | ⟨-, hx⟩
    · exact ⟨Slots.distinct_nil, hb.ledger, fun _ => trivial, fun _ => trivial,
        fun _ _ h => by cases h⟩
    · exact hb.sites hx
  · intro i j x y hij hx hy n m c hc hm
    rcases Slots.get?_set_cases hx with ⟨-, rfl⟩ | ⟨-, hx⟩
    · cases hc
    · rcases Slots.get?_set_cases hy with ⟨-, rfl⟩ | ⟨-, hy⟩
      · cases hm
      · exact hb.apart hij hx hy n m c hc hm
  · exact (hb.counted name).trans (congrArg _ (htotal _ rfl).symm)
  · exact hb.active.trans (congrArg _ (htotal _ rfl).symm)

theorem Sound.erase (hb : b.Sound) (hst : b.table.get? k = some st) (h0 : st.level = 0) :
    let b' : Bench κ := ⟨b.store, b.ledger, b.table.erase k⟩
    b'.Sound ∧ (∀ name, b'.inEffect name = b.inEffect name) ∧ b'.openScopes = b.openScopes := by
  have hkept : ∀ {j x}, (b.table.erase k).get? j = some x → b.table.get? j = some x :=
    fun hx => (Slots.get?_of_erase hx).2
  have htotal : ∀ f : ScopeStack → Nat, f st = 0 →
      Slots.total f (b.table.erase k) = Slots.total f b.table := by
    intro f hf
    have h := Slots.total_erase f k hb.table
    rw [hst] at h
    simpa [hf] using h
  have hzero : ∀ name, st.mapped b.store name = 0 := by
    intro name
    have hl : st.lineage b.store name = [] := Site.lineage_eq_nil (hb.sites hst) h0 name
    rw [ScopeStack.mapped_eq, hl]
    rfl
  have hlevel : st.level.toNat = 0 := by
    rw [h0]
    rfl
  refine ⟨⟨Slots.distinct_erase _ hb.table, hb.ledger, fun hx => hb.sites (hkept hx), ?_,
    fun name => ?_, ?_⟩, fun name => htotal _ (hzero name), htotal _ hlevel⟩
  · intro i j x y hij hx hy
    exact hb.apart hij (hkept hx) (hkept hy)
  · exact (hb.counted name).trans (congrArg _ (htotal _ (hzero name)).symm)
  · exact hb.active.trans (congrArg _ (htotal _ hlevel).symm)

end Bench

end ScopedMethods

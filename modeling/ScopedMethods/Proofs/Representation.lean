import Mathlib.Logic.Relation
import ScopedMethods.Proofs.Breaks
import ScopedMethods.Proofs.Conservation
import ScopedMethods.Proofs.Isolation

/-!
# Well-formed stacks

A stack is never deeper than its limit, has each chain under its own name and at
a level that is open, and each chain extends the one that it shadows. This holds
after any scopes were entered and left and any types laid over them, whole or up
to any query, on any stacks over one ledger; so the assertions in the code that
makes and reverts chains never fail.
-/

set_option autoImplicit false

namespace ScopedMethods

/-- A chain that shadows another one extends it. -/
structure Chain.Extends (c p : Chain) : Prop where
  level : 0 < p.level.toNat ∧ p.level.toNat < c.level.toNat
  name : p.name = c.name
  counter : p.counter = c.counter
  entries : p.entries.Sublist c.entries

theorem Chain.Extends.size_le {c p : Chain} (h : c.Extends p) : p.size ≤ c.size :=
  h.entries.length_le

def Store.Leads (s : Store) : ChainId → ChainId → Prop :=
  Relation.ReflTransGen fun id p => (s.chain id).previous? = some p

def ScopeStack.Limited (st : ScopeStack) : Prop :=
  st.maxDepth ≠ 0 → st.level.toNat ≤ st.maxDepth.toNat

namespace Site

structure Represented (w : Site) : Prop where
  depth : w.stack.Limited
  mapped : ∀ name id, w.stack.chain? name = some id → (w.store.chain id).name = name ∧
    0 < (w.store.chain id).level.toNat ∧ (w.store.chain id).level.toNat ≤ w.stack.level.toNat
  previous : ∀ name id, w.stack.chain? name = some id → ∀ q p, w.store.Leads id q →
    (w.store.chain q).previous? = some p → (w.store.chain q).Extends (w.store.chain p)
  outside : w.stack.level = 0 → ∀ name, w.stack.chain? name = none

/-- What is asserted where a chain is made for a name, and where the chains of the present
level are reverted. -/
structure Asserted (t : Caller) (w : Site) : Prop where
  first : ∀ name, w.stack.chain? name = none →
    let o := w.ledger.usage t name w.store
    o.1.number < o.2.1.counters.size
  shadow : ∀ name id, w.stack.chain? name = some id →
    (w.store.chain id).level ≠ w.stack.level →
      (w.store.chain id).level.toNat < w.stack.level.toNat ∧ (w.store.chain id).name = name ∧
      (w.store.chain id).counter.number < w.store.counters.size
  revert : ∀ name id p, w.stack.chain? name = some id → (w.store.chain id).previous? = some p →
    (w.store.chain p).size ≤ (w.store.chain id).size

def Heads (s : Store) (name : String) (k : Option CounterId) (id : ChainId) : Prop :=
  ∃ (n : Nat) (below : Lineage), Lineage.Linked name k ((id, s.chain id) :: below) ∧
    Lineage.Sloped n ((id, s.chain id) :: below) ∧ ∀ q ∈ below, s.chain q.1 = q.2

variable {s : Store} {name : String} {k : Option CounterId} {id p : ChainId} {w w' : Site}
  {t : Caller}

theorem Heads.previous (h : Heads s name k id) (hp : (s.chain id).previous? = some p) :
    Heads s name k p ∧ (s.chain id).Extends (s.chain p) := by
  obtain ⟨n, below, hlink, hslope, hthere⟩ := h
  obtain ⟨hname, hcounter, hshadows, hsub, hbelow⟩ := hlink
  rw [Chain.previous?, show (s.chain id).shadows = below.ids from hshadows] at hp
  cases below with
  | nil => cases hp
  | cons q below =>
    obtain ⟨j, c⟩ := q
    obtain rfl : j = p := Option.some.inj hp
    have hc : s.chain j = c := hthere (j, c) List.mem_cons_self
    subst hc
    obtain ⟨-, hle, hslope'⟩ := hslope
    refine ⟨⟨_, below, hbelow, hslope', fun q hq => hthere q (List.mem_cons_of_mem _ hq)⟩, ?_⟩
    have hlevel := hslope'.1
    have hlt := hslope'.2.1
    simp only at hlevel hlt
    refine ⟨⟨hlevel, by omega⟩, ?_, ?_, hsub⟩
    · exact hbelow.1.trans hname.symm
    · exact Option.some.inj (hbelow.2.1.trans hcounter.symm)

theorem Heads.leads {q : ChainId} (h : Heads s name k id) (hq : s.Leads id q) :
    Heads s name k q := by
  induction hq with
  | refl => exact h
  | tail _ hp ih => exact (ih.previous hp).1

theorem Sound.heads (hw : w.Sound) (hid : w.stack.chain? name = some id) :
    Heads w.store name (w.ledger.counters.get? name) id := by
  have hlink := hw.linked name
  have hslope := hw.sloped name
  have hthere : ∀ q ∈ w.lineage name, w.store.chain q.1 = q.2 := fun _ => chain_of_mem_lineage
  rw [lineage, ScopeStack.lineage_of_some hid, Store.lineage_eq_cons] at hlink hslope hthere
  exact ⟨_, _, hlink, hslope, fun q hq => hthere q (List.mem_cons_of_mem _ hq)⟩

theorem Sound.represented (hw : w.Sound) (hl : w.stack.Limited) : w.Represented where
  depth := hl
  mapped := by
    intro name id hid
    have hlink := hw.linked name
    have hslope := hw.sloped name
    rw [lineage, ScopeStack.lineage_of_some hid, Store.lineage_eq_cons] at hlink hslope
    exact ⟨hlink.1, hslope.1, hslope.2.1⟩
  previous := by
    intro name id hid q p hq hp
    exact (((hw.heads hid).leads hq).previous hp).2
  outside := by
    intro h0 name
    rw [ScopeStack.chain?_eq_head w.stack w.store]
    show (w.lineage name).ids.head? = none
    rw [lineage_eq_nil hw h0]
    rfl

theorem Sound.asserted (hw : w.Sound) (t : Caller) : w.Asserted t where
  first := by
    intro name _
    have hu := Ledger.used t name hw.ledger
    exact hu.sound.bounded hu.found
  shadow := by
    intro name id hid hne
    have hlink := hw.linked name
    have hslope := hw.sloped name
    rw [lineage, ScopeStack.lineage_of_some hid, Store.lineage_eq_cons] at hlink hslope
    have hneq : (w.store.chain id).level.toNat ≠ w.stack.level.toNat := fun h =>
      hne (UInt32.toNat_inj.1 h)
    refine ⟨lt_of_le_of_ne hslope.2.1 hneq, hlink.1, ?_⟩
    exact hw.ledger.bounded hlink.2.1.symm
  revert := by
    intro name id p hid hp
    exact ((hw.heads hid).previous hp).2.size_le

/-- A laying that ends at some query: its first tasks are carried out, and the chain that
the next one adds to is there. -/
def layPart (c : Catalog) (t : Caller) (ty : TypeId) (n : Nat) (w : Site) : Site :=
  match w.carry c t ((c.tree.laying ty).take n), (c.tree.laying ty)[n]? with
  | (.ok (), w), some (.offer m) => (w.touch t m.name).2
  | (_, w), _ => w

theorem layPart_eq (w : Site) (c : Catalog) (t : Caller) (ty : TypeId) (n : Nat) (f : Failure) :
    w.layPart c t ty n = (w.breakOff c t (c.tree.laying ty) n f).2 := by
  rw [layPart, breakOff]
  rcases w.carry c t ((c.tree.laying ty).take n) with ⟨_ | _, w₁⟩
  · rfl
  · rcases (c.tree.laying ty)[n]? with _ | task
    · rfl
    · cases task <;> rfl

theorem advance_layPart (hw : w.Sound) (h0 : 0 < w.stack.level.toNat) (c : Catalog) (t : Caller)
    (ty : TypeId) (n : Nat) : w.Advance (w.layPart c t ty n) := by
  rw [layPart_eq w c t ty n (.raised "")]
  exact (breakOff_spec hw h0 c t _ n _).1

/-- All that is claimed of a stack: now, while a type is laid, and while a scope is
entered and its types are laid. -/
structure Safe (w : Site) : Prop where
  represented : w.Represented
  asserted : ∀ t, w.Asserted t
  laying : w.stack.level ≠ 0 → ∀ t c ty ts, ts <+: c.tree.laying ty →
    (w.carry c t ts).2.Represented ∧ (w.carry c t ts).2.Asserted t
  entering : (w.stack.maxDepth = 0 → w.stack.level.toNat + 1 < 2 ^ 32) →
    ∀ t, (w.enter t).1.code = none → ∀ c realm types before, before <+: types →
      let w₁ := (w.enter t).2
      ((w₁.note t (.typesLaid realm types.length w₁.stack.level)).layAll c t before).2.stack.level
        ≠ 0

theorem Advance.limited (h : w.Advance w') (hl : w.stack.Limited) : w'.stack.Limited := by
  rw [ScopeStack.Limited, h.maxDepth, h.level]
  exact hl

theorem Shed.limited {n : Nat} (h : Shed n w w') (hl : w.stack.Limited) : w'.stack.Limited := by
  intro hmax
  have hle := hl (by rw [← h.maxDepth]; exact hmax)
  have hlevel := h.level
  rw [h.maxDepth]
  omega

theorem limited_enter (hw : w.Sound) (hl : w.stack.Limited)
    (hb : w.stack.maxDepth = 0 → w.stack.level.toNat + 1 < 2 ^ 32) (t : Caller) :
    (w.enter t).2.stack.Limited := by
  by_cases hfull : w.full = true
  · rw [enter_full t hfull]
    exact hl
  · have he := (enter_of_not_full t hfull hw hb).2
    intro hmax
    rw [he.maxDepth] at hmax ⊢
    rw [he.level]
    exact Nat.lt_of_not_le fun hle => hfull (full_iff.2 ⟨hmax, hle⟩)

theorem level_laying (hw : w.Sound) (hb : w.stack.maxDepth = 0 → w.stack.level.toNat + 1 < 2 ^ 32)
    (hok : (w.enter t).1.code = none) (c : Catalog) (e : Event) (types : List TypeId) :
    (((w.enter t).2.note t e).layAll c t types).2.stack.level ≠ 0 := by
  have hfull : ¬ w.full = true := by
    intro hfull
    rw [enter_full t hfull] at hok
    cases hok
  have he := (enter_of_not_full t hfull hw hb).2
  have hpos : 0 < ((w.enter t).2.note t e).stack.level.toNat := by
    show 0 < (w.enter t).2.stack.level.toNat
    rw [he.level]
    exact Nat.succ_pos _
  have ha := (carry_spec c t (c.tree.plan types) (sound_note he.sound t e) hpos).advance
  rw [layAll_eq_carry]
  intro h0
  rw [← ha.level, h0] at hpos
  exact absurd hpos (Nat.lt_irrefl _)

theorem Sound.safe (hw : w.Sound) (hl : w.stack.Limited) : w.Safe where
  represented := hw.represented hl
  asserted := hw.asserted
  laying := by
    intro h0 t c ty ts _
    have hpos : 0 < w.stack.level.toNat := Nat.pos_of_ne_zero fun h => h0 (UInt32.toNat_inj.1 h)
    have ha := (carry_spec c t ts hw hpos).advance
    exact ⟨ha.sound.represented (ha.limited hl), ha.sound.asserted t⟩
  entering := fun hb t hok c _ _ before _ => level_laying hw hb hok c _ before

end Site

/-- What is done on a stack. The metadata may be others each time, and a laying may end at
any query, also where the catalog has no fault for it. -/
inductive StackDeed where
  | enter
  | lay (c : Catalog) (type : TypeId)
  | layPart (c : Catalog) (type : TypeId) (n : Nat)
  | leave

namespace Site

variable {w : Site}

def perform (t : Caller) (w : Site) : StackDeed → Site
  | .enter => (w.enter t).2
  | .lay c ty => (w.lay c t ty).2
  | .layPart c ty n => w.layPart c t ty n
  | .leave => w.leave t

/-- Types are laid and scopes left on a stack with an open scope. -/
def Permits (w : Site) : StackDeed → Prop
  | .enter => w.stack.maxDepth = 0 → w.stack.level.toNat + 1 < 2 ^ 32
  | _ => w.stack.level ≠ 0

instance (w : Site) (d : StackDeed) : Decidable (w.Permits d) := by
  cases d <;> unfold Permits <;> infer_instance

theorem work_perform (hw : w.Sound) (hl : w.stack.Limited) (t : Caller) {d : StackDeed}
    (hp : w.Permits d) : Work w (w.perform t d) ∧ (w.perform t d).stack.Limited := by
  have hpos : w.stack.level ≠ 0 → 0 < w.stack.level.toNat := fun h0 =>
    Nat.pos_of_ne_zero fun h => h0 (UInt32.toNat_inj.1 h)
  cases d with
  | enter => exact ⟨.enter t hw hp, limited_enter hw hl hp t⟩
  | lay c ty =>
    have ha := (carry_spec c t (c.tree.laying ty) hw (hpos hp)).advance
    rw [perform, lay_eq_carry]
    exact ⟨.of_advance ha, ha.limited hl⟩
  | layPart c ty n =>
    have ha := advance_layPart hw (hpos hp) c t ty n
    exact ⟨.of_advance ha, ha.limited hl⟩
  | leave =>
    have hs := shed_leave t hw (hpos hp)
    exact ⟨.of_shed hs, hs.limited hl⟩

end Site

inductive BenchDeed (κ : Type) where
  | create (k : κ) (id : Nat) (maxDepth : Level)
  | perform (k : κ) (t : Caller) (d : StackDeed)
  | destroy (k : κ) (t : Caller)

namespace Bench

variable {κ : Type} [DecidableEq κ] {b : Bench κ}

def new (κ : Type) (s : Store) (id : Nat) : Bench κ := ⟨s, Ledger.new id, []⟩

def perform (b : Bench κ) : BenchDeed κ → Bench κ
  | .create k id maxDepth =>
    match b.table.get? k with
    | some _ => b
    | none => { b with table := b.table.set k (ScopeStack.new id maxDepth) }
  | .perform k t d =>
    match b.table.get? k with
    | some st => b.put k ((b.site st).perform t d)
    | none => b
  | .destroy k t =>
    match b.table.get? k with
    | some st =>
      let b := b.put k ((b.site st).destroy t)
      { b with table := b.table.erase k }
    | none => b

def run (b : Bench κ) (ds : List (BenchDeed κ)) : Bench κ := ds.foldl perform b

def Permits (b : Bench κ) : BenchDeed κ → Prop
  | .perform k _ d => ∀ st ∈ b.table.get? k, (b.site st).Permits d
  | _ => True

instance (b : Bench κ) (d : BenchDeed κ) : Decidable (b.Permits d) := by
  cases d <;> unfold Permits <;> infer_instance

def Lawful : Bench κ → List (BenchDeed κ) → Prop
  | _, [] => True
  | b, d :: ds => b.Permits d ∧ Lawful (b.perform d) ds

instance decidableLawful (b : Bench κ) : (ds : List (BenchDeed κ)) → Decidable (b.Lawful ds)
  | [] => .isTrue trivial
  | d :: ds =>
    have := decidableLawful (b.perform d) ds
    inferInstanceAs (Decidable (b.Permits d ∧ Lawful (b.perform d) ds))

structure Upright (b : Bench κ) : Prop where
  sound : b.Sound
  limited : ∀ {k : κ} {st : ScopeStack}, b.table.get? k = some st → st.Limited

theorem Upright.put (h : b.Upright) {k : κ} {st : ScopeStack} (hst : b.table.get? k = some st)
    {w : Site} (hw : Site.Work (b.site st) w) (hl : w.stack.Limited) : (b.put k w).Upright where
  sound := h.sound.put hst hw
  limited := by
    intro j x hx
    rcases Slots.get?_set_cases hx with ⟨-, rfl⟩ | ⟨-, hx⟩
    · exact hl
    · exact h.limited hx

theorem upright_perform (h : b.Upright) {d : BenchDeed κ} (hp : b.Permits d) :
    (b.perform d).Upright := by
  cases d with
  | create k id maxDepth =>
    rw [perform]
    cases hst : b.table.get? k with
    | some st => exact h
    | none =>
      refine ⟨(h.sound.new hst id maxDepth).1, fun {j x} hx => ?_⟩
      rcases Slots.get?_set_cases hx with ⟨-, rfl⟩ | ⟨-, hx⟩
      · exact fun _ => Nat.zero_le _
      · exact h.limited hx
  | perform k t d =>
    rw [perform]
    cases hst : b.table.get? k with
    | none => exact h
    | some st =>
      obtain ⟨hw, hl⟩ := Site.work_perform (h.sound.sites hst) (h.limited hst) t (hp st hst)
      exact h.put hst hw hl
  | destroy k t =>
    rw [perform]
    cases hst : b.table.get? k with
    | none => exact h
    | some st =>
      have hw := h.sound.sites hst
      have hput := h.put hst (.destroy t hw) ((Site.shed_destroy t hw).limited (h.limited hst))
      have hget : (b.put k ((b.site st).destroy t)).table.get? k =
          some ((b.site st).destroy t).stack := Slots.get?_set_self _ _ _
      exact ⟨(hput.sound.erase hget (Site.level_destroy t hw)).1,
        fun hx => hput.limited (Slots.get?_of_erase hx).2⟩

theorem upright_run {ds : List (BenchDeed κ)} (h : b.Upright) (hl : b.Lawful ds) :
    (b.run ds).Upright := by
  induction ds generalizing b with
  | nil => exact h
  | cons d ds ih => exact ih (upright_perform h hl.1) hl.2

theorem upright_new (s : Store) (id : Nat) : (Bench.new κ s id).Upright :=
  ⟨sound_empty s id, fun h => nomatch h⟩

end Bench

namespace Arena

variable {a a' : Arena} {t key : Nat}

def Limited (a : Arena) : Prop := ∀ t key, (a.options key).maxDepth ≠ 0 →
  depthIn key (a.frames t) ≤ (a.options key).maxDepth.toNat

theorem Limited.eased (h : a.Limited)
    (ho : ∀ key, a'.options key = a.options key ∨ ∀ t, depthIn key (a'.frames t) = 0)
    (hf : ∀ t key, depthIn key (a'.frames t) ≤ depthIn key (a.frames t)) : a'.Limited := by
  intro t key hmax
  rcases ho key with ho | h0
  · rw [ho] at hmax ⊢
    exact (hf t key).trans (h t key hmax)
  · rw [h0 t]
    exact Nat.zero_le _

theorem depth_lt_of_entered (ha : a.Sound a.frames) {types : List TypeId}
    (hp : a.Allowed t (.enter key types)) (he : (a.step t (.enter key types)).1 = .entered)
    (hmax : (a.options key).maxDepth ≠ 0) :
    depthIn key (a.frames t) < (a.options key).maxDepth.toNat := by
  rw [enter_answer ha types (hp.entered key types rfl), verdict, Outlook.verdict] at he
  rw [← ha.depth]
  by_contra hge
  rw [if_pos ⟨hmax, Nat.le_of_not_lt hge⟩] at he
  cases he

theorem options_step (ha : a.Sound a.frames) {act : Act} (hp : a.Allowed t act) (key : Nat) :
    (a.step t act).2.options key = a.options key ∨ ∀ u, depthIn key (a.frames u) = 0 := by
  cases hg : act.governs with
  | false => exact .inl (((step_allowed ha hp).settled hg).options key)
  | true =>
    rw [governed_options hg]
    cases act with
    | createRealm k o =>
      by_cases hk : k = key
      · exact .inr (hk ▸ hp.created k o rfl)
      · exact .inl (if_neg hk)
    | destroyRealm k =>
      by_cases hk : k = key
      · exact .inr (hk ▸ hp.destroyed k rfl)
      · exact .inl (if_neg hk)
    | _ => exact .inl rfl

theorem limited_step (ha : a.Sound a.frames) (h : a.Limited) {act : Act}
    (hp : a.Allowed t act) : (a.step t act).2.Limited := by
  have hs := step_allowed ha hp
  rcases hs.change with ⟨k, types, id, rfl, he, hf, -, -⟩ | ⟨-, hf, -⟩
  · intro u key hmax
    rw [(hs.settled rfl).options] at hmax ⊢
    by_cases hu : u = t
    · subst hu
      rw [hf, depthIn_cons]
      by_cases hk : k = key
      · subst hk
        rw [if_pos rfl]
        exact depth_lt_of_entered ha hp he hmax
      · rw [if_neg hk]
        exact h u key hmax
    · rw [hs.others u hu]
      exact h u key hmax
  · have hle : ∀ u key, depthIn key ((a.step t act).2.frames u) ≤ depthIn key (a.frames u) := by
      intro u key
      by_cases hu : u = t
      · subst hu
        rw [hf]
        exact (List.drop_sublist _ _).countP_le
      · rw [hs.others u hu]
    exact h.eased (fun key => (options_step ha hp key).imp_right fun h0 u =>
      Nat.le_zero.1 ((hle u key).trans_eq (h0 u))) hle

theorem limited_happen (ha : a.Sound a.frames) (h : a.Limited) {x : Happening}
    (hp : a.Admits x) : (a.happen x).Limited := by
  cases x with
  | act t act => exact limited_step ha h (allowed_iff.2 hp)
  | cut t =>
    obtain ⟨-, -, hc, hf⟩ := cutOff_spec ha t
    refine h.eased (fun key => .inl (hc.options key)) fun u key => ?_
    rw [show (a.happen (.cut t)).frames = _ from hf]
    by_cases hu : u = t
    · subst hu
      rw [Function.update_self]
      exact Nat.zero_le _
    · rw [Function.update_of_ne hu]

theorem limited_through {hs : List Happening} (ha : a.Sound a.frames) (h : a.Limited)
    (hl : a.Orderly hs) : (a.through hs).Limited := by
  induction hs generalizing a with
  | nil => exact h
  | cons x hs ih => exact ih (sound_happen ha hl.1) (limited_happen ha h hl.1) hl.2

theorem limited_new (v : Option Log.Verbosity) : (Arena.new v).Limited :=
  fun _ _ _ => Nat.zero_le _

theorem Limited.stack (ha : a.Sound a.frames) (h : a.Limited) {r : Realm}
    (hr : a.realm? key = some r) {id : Nat} {st : ScopeStack} (hst : r.stack? id = some st) :
    st.Limited := by
  obtain ⟨u, -, hu⟩ := (ha.realms hr).holder hst
  have hdepth := ha.depth u key
  have hopt : a.options key = r.options := by
    rw [options, hr]
    rfl
  rw [outlook_some hr, hu] at hdepth
  intro hmax
  rw [(ha.realms hr).limit hst, ← hopt] at hmax ⊢
  have hle := h u key hmax
  rw [← hdepth] at hle
  exact hle

end Arena

/-- Stacks over one ledger, whatever is done to them in whatever order, and all stacks that
threads are given in realms: each is well-formed in every state, and no assertion fails. -/
theorem representation_kept {κ : Type} [DecidableEq κ] :
    (∀ (s : Store) (id : Nat) (ds : List (BenchDeed κ)),
      (Bench.new κ s id).Lawful ds →
        let b := (Bench.new κ s id).run ds
        ∀ k st, b.table.get? k = some st → (b.site st).Safe) ∧
    ∀ (v : Option Log.Verbosity) (hs : List Arena.Happening), (Arena.new v).Orderly hs →
      let a := (Arena.new v).through hs
      ∀ key r, a.realm? key = some r → ∀ id st, r.stack? id = some st →
        (⟨a.store, r.ledger, st⟩ : Site).Safe := by
  constructor
  · intro s id ds hl b k st hst
    have h : b.Upright := Bench.upright_run (Bench.upright_new s id) hl
    exact (h.sound.sites hst).safe (h.limited hst)
  · intro v hs hl a key r hr id st hst
    have ha : a.Sound a.frames := Arena.sound_through (Arena.sound_new v) hl
    have h : a.Limited := Arena.limited_through (Arena.sound_new v) (Arena.limited_new v) hl
    exact ((ha.realms hr).sites hst).safe (h.stack ha hr hst)

def overriding : Catalog :=
  ((Arena.new none).run [(0, .register "Base" ⟨0⟩),
    (0, .declare ⟨1⟩ ⟨"f", [⟨1⟩], true, true, none⟩), (0, .register "Derived" ⟨1⟩),
    (0, .declare ⟨2⟩ ⟨"f", [⟨2⟩], true, true, none⟩)]).catalog

def halfShadowed : List (BenchDeed Nat) :=
  let t : Caller := ⟨0, ""⟩
  [.create 0 0 2, .create 1 1 0, .perform 0 t .enter, .perform 0 t (.lay overriding ⟨1⟩),
   .perform 1 t .enter, .perform 0 t .enter, .perform 1 t (.lay overriding ⟨2⟩),
   .perform 0 t (.lay overriding ⟨2⟩), .perform 0 t .enter, .perform 0 t .leave,
   .perform 0 t (.lay overriding ⟨2⟩), .perform 0 t .enter,
   .perform 0 t (.layPart overriding ⟨2⟩ 5)]

def shadowing : Bench Nat := (Bench.new Nat (Store.new none) 0).run halfShadowed

theorem representation_halfShadowed :
    (∃ st id p, shadowing.table.get? 0 = some st ∧ st.chain? "f" = some id ∧
      (shadowing.store.chain id).previous? = some p ∧
      (shadowing.store.chain id).Extends (shadowing.store.chain p)) ∧
    ∃ r st, ((Arena.new none).through cutShort).realm? 0 = some r ∧ r.stack? 1 = some st ∧
      (⟨((Arena.new none).through cutShort).store, r.ledger, st⟩ : Site).Safe := by
  obtain ⟨h1, h2⟩ := @representation_kept Nat _
  constructor
  · have hst : (shadowing.table.get? 0).isSome = true := by decide +kernel
    obtain ⟨st, hst⟩ := Option.isSome_iff_exists.1 hst
    have hsafe := h1 (Store.new none) 0 halfShadowed (by decide +kernel) 0 st hst
    have hid : ((shadowing.table.get? 0).bind fun st => st.chain? "f") = some ⟨3⟩ := by
      decide +kernel
    rw [hst] at hid
    have hp : (shadowing.store.chain ⟨3⟩).previous? = some ⟨0⟩ := by decide +kernel
    exact ⟨st, ⟨3⟩, ⟨0⟩, hst, hid, hp,
      hsafe.represented.previous "f" ⟨3⟩ hid ⟨3⟩ ⟨0⟩ .refl hp⟩
  · have hr : (((Arena.new none).through cutShort).realm? 0).isSome = true := by decide +kernel
    obtain ⟨r, hr⟩ := Option.isSome_iff_exists.1 hr
    have hst : ((((Arena.new none).through cutShort).realm? 0).bind fun r => r.stack? 1).isSome =
        true := by
      decide +kernel
    rw [hr] at hst
    obtain ⟨st, hst⟩ := Option.isSome_iff_exists.1 hst
    exact ⟨r, st, hr, hst, h2 none cutShort (by decide +kernel) 0 r hr 1 st hst⟩

end ScopedMethods

import Mathlib.Data.List.Forall2
import ScopedMethods.Proofs.Counters
import ScopedMethods.Proofs.Twins

/-!
# Recycling idle stacks

Whether idle stacks are released at once, on request or not at all shows nowhere. A
run is compared with its plain run, in which nobody asks for idle stacks and all realms
recycle them alike. Its arenas are twins of those of the run, so threads are told the
same in both, and the chains that they are shown count for the same. Two runs with one
plain run then show the same.
-/

set_option autoImplicit false

namespace ScopedMethods

namespace Act

variable {act act' : Act}

/-- What of an act is not about recycling. -/
def plain : Act → Option Act
  | .requestReclaim _ => none
  | .createRealm key o => some (.createRealm key { maxDepth := o.maxDepth })
  | act => some act

theorem kindred_of_plain (h : act.plain = some act') : Kindred act act' := by
  cases act with
  | createRealm key o =>
    cases h
    exact .created key rfl
  | requestReclaim key => cases h
  | _ =>
    cases h
    exact .same _

theorem Kindred.ends (h : Kindred act act') (key : Nat) : act'.ends key = act.ends key := by
  cases h <;> rfl

end Act

namespace Arena

variable {a b : Arena} {t key : Nat}

def Standing (a : Arena) (x : ChainId) : Option (Nat × String) → Prop
  | some p => a.counter? p.1 p.2 = some (a.store.chain x).counter
  | none => a.Retired (a.store.chain x).counter

def Happening.leaves (h : Happening) (p : Option (Nat × String)) : Option (Nat × String) :=
  p.filter fun q => !h.ends q.1

theorem Standing.happen {x : ChainId} {p : Option (Nat × String)} {h : Happening}
    (hx : a.Standing x p) (ha : a.Sound a.frames) (hp : a.Admits h)
    (hb : x.number < a.store.chains.size) : (a.happen h).Standing x (h.leaves p) := by
  have hchain : (a.happen h).store.chain x = a.store.chain x := (keeps_happen ha hp).frame hb
  cases p with
  | none =>
    show (a.happen h).Retired _
    rw [hchain]
    exact Retired.books hx (books_happen ha hp)
  | some q =>
    rw [Happening.leaves, Option.filter_some]
    cases he : h.ends q.1 with
    | true =>
      show (a.happen h).Retired _
      rw [hchain]
      exact retired_happen ha hp he hx
    | false =>
      show (a.happen h).counter? q.1 q.2 = _
      rw [hchain]
      exact counter?_happen ha hp he hx

theorem Standing.usage {x : ChainId} {p : Option (Nat × String)} (hx : a.Standing x p) :
    a.store.usage x = p.elim 0 fun q => a.usageCount q.1 q.2 := by
  cases p with
  | none => exact Retired.zero hx
  | some q =>
    have hq : a.counter? q.1 q.2 = some (a.store.chain x).counter := hx
    show _ = a.usageCount q.1 q.2
    rw [usageCount_eq_counter, hq]
    rfl

/-- Chains of two arenas that count for the same. -/
structure Kin (a b : Arena) (x y : ChainId) : Prop where
  left : x.number < a.store.chains.size
  right : y.number < b.store.chains.size
  standing : ∃ p, a.Standing x p ∧ b.Standing y p

theorem Kin.usage {x y : ChainId} (h : Kin a b x y) (ht : Twin a b) :
    b.store.usage y = a.store.usage x := by
  obtain ⟨p, hx, hy⟩ := h.standing
  rw [hx.usage, hy.usage, ht.usageCount]

theorem Kin.both {x y : ChainId} {h g : Happening} (hk : Kin a b x y) (ht : Twin a b)
    (hp : a.Admits h) (hq : b.Admits g) (he : ∀ key, g.ends key = h.ends key) :
    Kin (a.happen h) (b.happen g) x y where
  left := hk.left.trans_le (keeps_happen ht.left hp).size
  right := hk.right.trans_le (keeps_happen ht.right hq).size
  standing := by
    obtain ⟨p, hx, hy⟩ := hk.standing
    have hleaves : g.leaves p = h.leaves p := by simp only [Happening.leaves, he]
    exact ⟨_, hx.happen ht.left hp hk.left, hleaves ▸ hy.happen ht.right hq hk.right⟩

theorem Kin.skip {x y : ChainId} {h : Happening} (hk : Kin a b x y) (ha : a.Sound a.frames)
    (hp : a.Admits h) (he : ∀ key, h.ends key = false) : Kin (a.happen h) b x y where
  left := hk.left.trans_le (keeps_happen ha hp).size
  right := hk.right
  standing := by
    obtain ⟨p, hx, hy⟩ := hk.standing
    have hleaves : h.leaves p = p := by
      cases p with
      | none => rfl
      | some q => simp [Happening.leaves, he]
    exact ⟨p, hleaves ▸ hx.happen ha hp hk.left, hy⟩

theorem Twin.heads (ht : Twin a b) (t key : Nat) (name : String) :
    List.Forall₂ (Kin a b) ((a.outlook t key).lineage name).ids.head?.toList
      ((b.outlook t key).lineage name).ids.head?.toList := by
  have hladder := (ht.alike t key).ladder name
  have hkin : ∀ {p q : ChainId × Chain}, p ∈ (a.outlook t key).lineage name →
      q ∈ (b.outlook t key).lineage name → Kin a b p.1 q.1 := by
    intro p q hp hq
    obtain ⟨hpc, hpb⟩ := chain_of_outlook ht.left hp
    obtain ⟨hqc, hqb⟩ := chain_of_outlook ht.right hq
    refine ⟨hpb, hqb, some (key, name), ?_, ?_⟩
    · show a.counter? key name = some (a.store.chain p.1).counter
      rw [hpc, (ht.left.labels_of_outlook hp).2]
    · show b.counter? key name = some (b.store.chain q.1).counter
      rw [hqc, (ht.right.labels_of_outlook hq).2]
  cases hl : (a.outlook t key).lineage name with
  | nil =>
    rw [hl] at hladder
    rw [List.map_eq_nil_iff.1 hladder]
    exact .nil
  | cons p below =>
    cases hr : (b.outlook t key).lineage name with
    | nil =>
      rw [hl, hr] at hladder
      cases hladder
    | cons q below' =>
      refine .cons (hkin ?_ ?_) .nil
      · rw [hl]
        exact List.mem_cons_self
      · rw [hr]
        exact List.mem_cons_self

end Arena

/-- What the end of an act tells, apart from the identity of chains and counters. -/
inductive Tidings where
  | plain (e : Ending)
  | chain (l : Option Ladder)
  | count (n : Int32)

def Ending.tidings (s : Store) : Ending → Tidings
  | .chain id => .chain (id.map s.ladder)
  | .counter k => .count (s.counter k)
  | e => .plain e

def Ending.chain? : Ending → Option ChainId
  | .chain id => id
  | _ => none

namespace Arena

variable {a b : Arena} {t key : Nat} {act act' : Act}

theorem answer_register (tree : TypeTree) (c c' : Caller) (name : String) (parent : TypeId)
    (s s' : Store) : (tree.registerReporting c name parent s).1 =
      (tree.registerReporting c' name parent s').1 := by
  rw [TypeTree.registerReporting_eq, TypeTree.registerReporting_eq]
  cases tree.register name parent <;> rfl

theorem answer_declare (tree : TypeTree) (c c' : Caller) (on : TypeId) (d : MethodDecl)
    (s s' : Store) : (tree.declareReporting c on d s).1 =
      (tree.declareReporting c' on d s').1 := by
  rw [TypeTree.declareReporting_eq, TypeTree.declareReporting_eq]
  cases tree.declare on d with
  | error r => rfl
  | ok tree' =>
    simp only
    cases tree'.info? on <;> rfl

theorem leave_answer (a : Arena) (t : Nat) :
    (a.step t .leave).1 = ((a.frames t).map Frame.realm).head?.elim .noScope .left := by
  rw [← frames_withThread (t := t) t]
  show ((a.withThread t).perform t .leave).1 = _
  simp only [perform, frames]
  cases ((a.withThread t).thread t).frames <;> rfl

theorem raise_answer (a : Arena) (t n : Nat) :
    (a.step t (.raise n)).1 =
      let passed := ((a.frames t).map Frame.realm).take (max n 1)
      passed.getLast?.elim .noScope (.unwound passed.length) := by
  rw [← frames_withThread (t := t) t]
  show ((a.withThread t).raise t n).1 = _
  simp only [raise, frames, ← List.map_take, List.getLast?_map, List.length_map]
  cases (((a.withThread t).thread t).frames.take (max n 1)).getLast? <;> rfl

theorem lookup_told (ha : a.Sound a.frames) (t key : Nat) (name : String) :
    (a.step t (.lookup key name)).1.tidings (a.step t (.lookup key name)).2.store =
      .chain ((a.outlook t key).lineage name).ladder.seen := by
  have h := sighting_lookup ha t key name
  rw [sighting_own rfl, lookup_answer ha] at h
  rw [lookup_answer ha]
  exact congrArg Tidings.chain (Sighting.chain.inj (Option.some.inj h))

theorem nameUsage_told (ha : a.Sound a.frames) (t key : Nat) (name : String) :
    (a.step t (.nameUsage key name)).1.tidings (a.step t (.nameUsage key name)).2.store =
      .count ((a.step t (.nameUsage key name)).2.usageCount key name) := by
  obtain ⟨-, -, k, he, hk⟩ := mints_nameUsage ha t key name
  rw [he, usageCount_eq_counter, hk]
  rfl

theorem Twin.told (ht : Twin a b) (hplain : act.plain = some act') (hne : act ≠ .exit)
    (hp : a.Allowed t act) :
    (b.step t act').1.tidings (b.step t act').2.store =
      (a.step t act).1.tidings (a.step t act).2.store := by
  have hcat : (b.withThread t).catalog = (a.withThread t).catalog := by
    rw [catalog_withThread, catalog_withThread, ht.catalog]
  cases act with
  | requestReclaim key => cases hplain
  | exit => exact absurd rfl hne
  | register name parent =>
    cases hplain
    show Tidings.plain (.registered ((b.withThread t).catalog.tree.registerReporting _ _ _ _).1) =
      .plain (.registered ((a.withThread t).catalog.tree.registerReporting _ _ _ _).1)
    rw [hcat, answer_register]
  | declare on d =>
    cases hplain
    show Tidings.plain (.declared ((b.withThread t).catalog.tree.declareReporting _ _ _ _).1) =
      .plain (.declared ((a.withThread t).catalog.tree.declareReporting _ _ _ _).1)
    rw [hcat, answer_declare]
  | enter key types =>
    cases hplain
    rw [ht.enter_answer_eq hp, enter_answer ht.left types (hp.entered key types rfl)]
    cases a.verdict t key types <;> rfl
  | leave =>
    cases hplain
    rw [leave_answer, leave_answer, ht.frames]
    cases ((a.frames t).map Frame.realm).head? <;> rfl
  | raise n =>
    cases hplain
    rw [raise_answer, raise_answer, ht.frames]
    simp only
    cases (((a.frames t).map Frame.realm).take (max n 1)).getLast? <;> rfl
  | lookup key name =>
    cases hplain
    rw [lookup_told ht.left, lookup_told ht.right, (ht.alike t key).ladder]
  | activeHere key =>
    cases hplain
    rw [flag_answer_eq ht.left, flag_answer_eq ht.right, ht.active, (ht.alike t key).level]
    rfl
  | currentLevel key =>
    cases hplain
    rw [level_answer ht.left, level_answer ht.right, (ht.alike t key).level]
    rfl
  | nameUsage key name =>
    cases hplain
    rw [nameUsage_told ht.left, nameUsage_told ht.right, (ht.step (.same _) hp).usageCount]
  | _ =>
    cases hplain
    rfl

def Happening.plain : Happening → Option Happening
  | .act t x => x.plain.map (.act t)
  | .cut t => some (.cut t)

def Happening.told (a : Arena) : Happening → Option Tidings
  | .act _ .exit => none
  | .act t x => some ((a.step t x).1.tidings (a.step t x).2.store)
  | .cut _ => none

def Happening.shown (a : Arena) : Happening → List ChainId
  | .act t (.lookup key name) => (a.step t (.lookup key name)).1.chain?.toList
  | _ => []

variable {h g : Happening}

theorem reclaim_of_plain (hn : h.plain = none) : ∃ t key, h = .act t (.requestReclaim key) := by
  cases h with
  | cut t => cases hn
  | act t x =>
    cases x with
    | requestReclaim key => exact ⟨t, key, rfl⟩
    | _ => cases hn

theorem plain_plain (hs : h.plain = some g) : g.plain = some g := by
  cases h with
  | cut t =>
    cases hs
    rfl
  | act t x =>
    cases x with
    | requestReclaim key => cases hs
    | _ =>
      cases hs
      rfl

theorem ends_plain (hs : h.plain = some g) (key : Nat) : g.ends key = h.ends key := by
  cases h with
  | cut t =>
    cases hs
    rfl
  | act t x =>
    obtain ⟨y, hy, rfl⟩ := Option.map_eq_some_iff.1 hs
    exact (Act.kindred_of_plain hy).ends key

namespace Twin

variable (ht : Twin a b)

include ht

theorem admits (hs : h.plain = some g) : b.Admits g ↔ a.Admits h := by
  cases h with
  | cut t =>
    cases hs
    exact Iff.rfl
  | act t x =>
    obtain ⟨y, hy, rfl⟩ := Option.map_eq_some_iff.1 hs
    have hk := Act.kindred_of_plain hy
    exact ⟨fun hp => allowed_iff.1 (ht.symm.allowed hk.symm (allowed_iff.2 hp)),
      fun hp => allowed_iff.1 (ht.allowed hk (allowed_iff.2 hp))⟩

theorem happen (hs : h.plain = some g) (hp : a.Admits h) : Twin (a.happen h) (b.happen g) := by
  cases h with
  | cut t =>
    cases hs
    exact ht.cut t
  | act t x =>
    obtain ⟨y, hy, rfl⟩ := Option.map_eq_some_iff.1 hs
    exact ht.step (Act.kindred_of_plain hy) (allowed_iff.2 hp)

theorem tells (hs : h.plain = some g) (hp : a.Admits h) : g.told b = h.told a := by
  cases h with
  | cut t =>
    cases hs
    rfl
  | act t x =>
    obtain ⟨y, hy, rfl⟩ := Option.map_eq_some_iff.1 hs
    by_cases hx : x = .exit
    · subst hx
      cases hy
      rfl
    · have htold := ht.told hy hx (allowed_iff.2 hp)
      cases x with
      | exit => exact absurd rfl hx
      | requestReclaim key => cases hy
      | _ =>
        cases hy
        exact congrArg some htold

theorem shows (hs : h.plain = some g) : List.Forall₂ (Kin a b) (h.shown a) (g.shown b) := by
  cases h with
  | cut t =>
    cases hs
    exact .nil
  | act t x =>
    cases x with
    | lookup key name =>
      cases hs
      simp only [Happening.shown, lookup_answer ht.left, lookup_answer ht.right, Ending.chain?]
      exact ht.heads t key name
    | requestReclaim key => cases hs
    | _ =>
      cases hs
      exact .nil

theorem reclaim (t key : Nat) : Twin (a.happen (.act t (.requestReclaim key))) b := by
  have hp : a.Permits t (.requestReclaim key) := trivial
  exact ht.skip (step_spec ht.left hp) rfl rfl fun _ _ => nofun

end Twin

/-- What can be seen once something has happened: what the thread was told, the tally and the
counts of all realms, and the use of all chains that threads may have kept. -/
structure Outcome where
  told : Option Tidings
  active : Nat → UInt64
  counts : Nat → String → Int32
  kept : List Int32

def outcomes : List ChainId → Arena → List Happening → List Outcome
  | _, _, [] => []
  | held, a, h :: rest =>
    let b := a.happen h
    match h.plain with
    | none => outcomes held b rest
    | some _ =>
      let held := held ++ h.shown a
      ⟨h.told a, b.active, b.usageCount, held.map b.store.usage⟩ :: outcomes held b rest

theorem kept_congr {held held' : List ChainId} (ht : Twin a b)
    (hk : List.Forall₂ (Kin a b) held held') :
    held'.map b.store.usage = held.map a.store.usage := by
  induction hk with
  | nil => rfl
  | cons h _ ih => rw [List.map_cons, List.map_cons, h.usage ht, ih]

/-- A run and its plain run: the one can be had where the other can, with the same outcomes. -/
theorem outcomes_plain (hs : List Happening) {held held' : List ChainId} (ht : Twin a b)
    (hk : List.Forall₂ (Kin a b) held held') :
    (b.Orderly (hs.filterMap Happening.plain) ↔ a.Orderly hs) ∧
      (a.Orderly hs → outcomes held' b (hs.filterMap Happening.plain) = outcomes held a hs) := by
  induction hs generalizing a b held held' with
  | nil => exact ⟨Iff.rfl, fun _ => rfl⟩
  | cons h hs ih =>
    cases hplain : h.plain with
    | none =>
      obtain ⟨t, key, rfl⟩ := reclaim_of_plain hplain
      obtain ⟨h1, h2⟩ := ih (ht.reclaim t key)
        (hk.imp fun _ _ hkin => hkin.skip ht.left trivial fun _ => rfl)
      rw [List.filterMap_cons_none hplain]
      exact ⟨h1.trans (and_iff_right trivial).symm, fun hl => h2 hl.2⟩
    | some g =>
      rw [List.filterMap_cons_some hplain]
      by_cases hp : a.Admits h
      · have hq := (ht.admits hplain).2 hp
        have ht' := ht.happen hplain hp
        have hk' := (List.rel_append hk (ht.shows hplain)).imp fun _ _ hkin =>
          hkin.both ht hp hq (ends_plain hplain)
        obtain ⟨h1, h2⟩ := ih ht' hk'
        refine ⟨and_congr (iff_of_true hq hp) h1, fun hl => ?_⟩
        simp only [outcomes, hplain, plain_plain hplain]
        rw [h2 hl.2, ht.tells hplain hp, ht'.active, ht'.usageCount, kept_congr ht' hk']
      · exact ⟨iff_of_false (fun hl => hp ((ht.admits hplain).1 hl.1)) fun hl => hp hl.1,
          fun hl => absurd hl.1 hp⟩

/-- How idle stacks are recycled does not show: runs that differ only in the release of idle
stacks and in requests for them can be had alike, and every common step has the same outcome. -/
theorem recycling_unseen (v : Option Log.Verbosity) (hs hs' : List Happening)
    (hc : hs'.filterMap Happening.plain = hs.filterMap Happening.plain)
    (hl : (Arena.new v).Orderly hs) :
    (Arena.new v).Orderly hs' ∧
      outcomes [] (Arena.new v) hs' = outcomes [] (Arena.new v) hs := by
  obtain ⟨h1, h2⟩ := outcomes_plain hs (Twin.new v) .nil
  obtain ⟨h1', h2'⟩ := outcomes_plain hs' (Twin.new v) .nil
  rw [hc] at h1' h2'
  have hl' := h1'.1 (h1.2 hl)
  exact ⟨hl', (h2' hl').symm.trans (h2 hl)⟩

def retaining : List Happening :=
  [.act 0 (.createRealm 0 { maxDepth := 2, releaseIdle := false }),
   .act 0 (.register "Base" ⟨0⟩), .act 0 (.declare ⟨1⟩ ⟨"f", [⟨1⟩], true, true, none⟩),
   .act 0 (.enter 0 [⟨1⟩]), .act 0 (.lookup 0 "f"), .act 0 .leave, .act 0 (.activeHere 0),
   .act 1 (.enter 0 [⟨1⟩]), .act 0 (.currentLevel 0), .act 0 (.enter 0 [⟨1⟩]),
   .act 0 (.enter 0 [⟨1⟩]), .act 1 (.requestReclaim 0), .act 0 (.enter 0 [⟨1⟩]),
   .act 0 (.raise 2), .act 1 .leave]

def releasing : List Happening :=
  [.act 1 (.requestReclaim 0), .act 0 (.createRealm 0 { maxDepth := 2 }),
   .act 0 (.register "Base" ⟨0⟩), .act 0 (.declare ⟨1⟩ ⟨"f", [⟨1⟩], true, true, none⟩),
   .act 0 (.enter 0 [⟨1⟩]), .act 1 (.requestReclaim 0), .act 0 (.lookup 0 "f"), .act 0 .leave,
   .act 0 (.activeHere 0), .act 1 (.enter 0 [⟨1⟩]), .act 0 (.currentLevel 0),
   .act 0 (.enter 0 [⟨1⟩]), .act 0 (.enter 0 [⟨1⟩]), .act 0 (.enter 0 [⟨1⟩]),
   .act 0 (.raise 2), .act 1 .leave]

theorem recycling_releasing :
    (((Arena.new none).through retaining).realm? 0).map Realm.liveStacks = some 2 ∧
      (((Arena.new none).through releasing).realm? 0).map Realm.liveStacks = some 0 ∧
      (outcomes [] (Arena.new none) retaining).length = 14 ∧
      outcomes [] (Arena.new none) releasing = outcomes [] (Arena.new none) retaining := by
  obtain ⟨-, h⟩ := recycling_unseen none retaining releasing rfl (by decide +kernel)
  exact ⟨by decide +kernel, by decide +kernel, rfl, h⟩

end Arena

end ScopedMethods

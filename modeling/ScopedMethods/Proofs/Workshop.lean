import Mathlib.Logic.Function.Basic
import ScopedMethods.Proofs.Ranking
import ScopedMethods.Store

/-!
# Chains made by hand

Chains are made over a catalog whose types change between any two additions:
first ones, ones over any chain that is there, and candidates added to any of
them. What was added along the lineage of each chain is recorded on the side.
-/

set_option autoImplicit false

namespace ScopedMethods

structure Workshop where
  catalog : Catalog
  store : Store

namespace Workshop

inductive Job where
  | register (name : String) (parent : TypeId)
  | declare (on : TypeId) (decl : MethodDecl)
  | setFault (query : Query) (type : TypeId) (on : Bool)
  | counter
  | first (name : String) (level : Level) (counter : CounterId)
  | shadow (name : String) (level : Level) (previous : ChainId)
  | add (chain : ChainId) (new : Candidate)

def new (verbosity : Option Log.Verbosity) : Workshop := ⟨Catalog.new, Store.new verbosity⟩

def Has (w : Workshop) (id : ChainId) : Prop := id.number < w.store.chains.size

instance (w : Workshop) (id : ChainId) : Decidable (w.Has id) :=
  inferInstanceAs (Decidable (id.number < w.store.chains.size))

def step (w : Workshop) : Job → Workshop
  | .register name parent =>
    match w.catalog.tree.register name parent with
    | .error _ => w
    | .ok (_, tree) => { w with catalog := { w.catalog with tree := tree } }
  | .declare on d =>
    match w.catalog.tree.declare on d with
    | .error _ => w
    | .ok tree => { w with catalog := { w.catalog with tree := tree } }
  | .setFault q t on => { w with catalog := w.catalog.setFault q t on }
  | .counter => { w with store := w.store.newCounter.2 }
  | .first name level k => { w with store := (w.store.firstChain name level k).2 }
  | .shadow name level p =>
    if w.Has p then { w with store := (w.store.shadow name level p).2 } else w
  | .add id new => if w.Has id then { w with store := (w.store.add w.catalog id new).2 } else w

def run (w : Workshop) (jobs : List Job) : Workshop := jobs.foldl step w

structure Past where
  /-- What had been added along the lineage when the chain was made. -/
  inherited : List Candidate
  /-- The candidates that the chain was made with. -/
  copied : List Candidate
  /-- What was added to the chain itself. -/
  own : List Candidate

/-- All that was added along the lineage of a chain, in order. -/
def Past.added (p : Past) : List Candidate := p.inherited ++ p.own

def Past.extended (p : Past) (new : Candidate) : Past := { p with own := p.own ++ [new] }

theorem Past.added_extended (p : Past) (new : Candidate) :
    (p.extended new).added = p.added ++ [new] :=
  (List.append_assoc _ _ _).symm

def unmade : ChainId → Past := fun _ => ⟨[], [], []⟩

def record (w : Workshop) (past : ChainId → Past) : Job → ChainId → Past
  | .first _ _ _ => Function.update past ⟨w.store.chains.size⟩ ⟨[], [], []⟩
  | .shadow _ _ p =>
    if w.Has p then
      Function.update past ⟨w.store.chains.size⟩ ⟨(past p).added, (w.store.chain p).entries, []⟩
    else past
  | .add id new =>
    if w.Has id ∧ (w.store.add w.catalog id new).1 = .ok () then
      Function.update past id ((past id).extended new)
    else past
  | _ => past

def history (w : Workshop) (past : ChainId → Past) : List Job → ChainId → Past
  | [] => past
  | job :: rest => history (w.step job) (w.record past job) rest

/-- How a chain stands to its past, over a tree. -/
structure Follows (tree : TypeTree) (s : Store) (past : ChainId → Past) (id : ChainId) : Prop where
  ranking : tree.Ranking (past id).added (s.chain id).entries
  copied : (past id).copied.Sublist (s.chain id).entries
  older : ∀ p, (s.chain id).previous? = some p → p.number < id.number
  shadowed : ∀ p, (s.chain id).previous? = some p → (past id).inherited <+: (past p).added ∧
    ((past p).added = (past id).inherited → (s.chain p).entries = (past id).copied)

def Kept (w : Workshop) (past : ChainId → Past) : Prop :=
  ∀ id, w.Has id → Follows w.catalog.tree w.store past id

variable {w : Workshop} {past past' : ChainId → Past} {tree tree' : TypeTree} {s s' : Store}
  {id p : ChainId} {new : Candidate} {job : Job}

theorem Follows.grows (h : Follows tree s past id) (hg : tree.Grows tree') :
    Follows tree' s past id :=
  ⟨h.ranking.grows hg, h.copied, h.older, h.shadowed⟩

theorem Follows.frame (h : Follows tree s past id) (hid : s'.chain id = s.chain id)
    (hpast : past' id = past id)
    (hbelow : ∀ p, p.number < id.number → s'.chain p = s.chain p ∧ past' p = past p) :
    Follows tree s' past' id where
  ranking := by
    rw [hid, hpast]
    exact h.ranking
  copied := by
    rw [hid, hpast]
    exact h.copied
  older := by
    rw [hid]
    exact h.older
  shadowed := by
    intro p hp
    rw [hid] at hp
    obtain ⟨hc, he⟩ := hbelow p (h.older p hp)
    rw [hpast, hc, he]
    exact h.shadowed p hp

theorem kept_new (v : Option Log.Verbosity) : (Workshop.new v).Kept unmade :=
  fun _ h => absurd h (Nat.not_lt_zero _)

theorem kept_newChain (h : w.Kept past) {c : Chain} {x : Past}
    (hrank : w.catalog.tree.Ranking x.added c.entries) (hcopied : x.copied.Sublist c.entries)
    (hover : ∀ p, c.previous? = some p →
      w.Has p ∧ x.inherited = (past p).added ∧ x.copied = (w.store.chain p).entries) :
    Kept { w with store := (w.store.newChain c).2 }
      (Function.update past ⟨w.store.chains.size⟩ x) := by
  have hold : ∀ j : ChainId, w.Has j → (w.store.newChain c).2.chain j = w.store.chain j ∧
      Function.update past ⟨w.store.chains.size⟩ x j = past j := by
    intro j hj
    refine ⟨Store.chain_newChain_of_lt hj c, Function.update_of_ne ?_ _ _⟩
    rintro rfl
    exact Nat.lt_irrefl _ hj
  intro id hid
  have hsize : id.number < w.store.chains.size + 1 := by
    simpa [Has, Store.newChain] using hid
  rcases Nat.lt_succ_iff_lt_or_eq.1 hsize with hlt | heq
  · obtain ⟨h1, h2⟩ := hold id hlt
    exact (h id hlt).frame h1 h2 fun p hp => hold p (hp.trans hlt)
  · obtain rfl : id = ⟨w.store.chains.size⟩ := by cases id; simp_all
    have hself : (w.store.newChain c).2.chain ⟨w.store.chains.size⟩ = c :=
      Store.chain_newChain_self w.store c
    constructor
    · rw [hself, Function.update_self]
      exact hrank
    · rw [hself, Function.update_self]
      exact hcopied
    · rw [hself]
      exact fun p hp => (hover p hp).1
    · rw [hself, Function.update_self]
      intro p hp
      obtain ⟨hhas, hin, hc⟩ := hover p hp
      obtain ⟨h1, h2⟩ := hold p hhas
      rw [h1, h2, hin, hc]
      exact ⟨List.prefix_refl _, fun _ => rfl⟩

theorem add_of_error {c : Catalog} {f : Failure} (h : (s.add c id new).1 = .error f) :
    (s.add c id new).2 = s := by
  unfold Store.add at h ⊢
  cases hp : c.place new (s.chain id).entries with
  | error g => rfl
  | ok es => rw [hp] at h; cases h

theorem add_eq_error_iff {c : Catalog} {f : Failure} :
    (s.add c id new).1 = .error f ↔ c.Falters new (s.chain id).entries f := by
  rw [← Catalog.place_eq_error_iff, Store.add]
  cases c.place new (s.chain id).entries <;> simp

theorem add_of_ok {c : Catalog} (hid : id.number < s.chains.size)
    (h : (s.add c id new).1 = .ok ()) :
    c.tree.Known new (s.chain id).entries ∧
      ((s.add c id new).2.chain id).entries = c.tree.insert new (s.chain id).entries ∧
      ((s.add c id new).2.chain id).shadows = (s.chain id).shadows ∧
      ∀ j, id ≠ j → (s.add c id new).2.chain j = s.chain j := by
  unfold Store.add at h ⊢
  cases hp : c.place new (s.chain id).entries with
  | error g => rw [hp] at h; cases h
  | ok es =>
    have hes : c.tree.insert new (s.chain id).entries = es := by
      rw [Catalog.place_eq] at hp
      exact ((Catalog.answered_ok_iff c _ _ _).1 hp).2
    refine ⟨Catalog.known_of_place hp, ?_, ?_, fun j hj => ?_⟩
    · rw [Store.chain_count, Store.chain_setEntries_self hid, hes]
    · rw [Store.chain_count, Store.chain_setEntries_self hid]
    · rw [Store.chain_count, Store.chain_setEntries_ne hj]

theorem size_add (c : Catalog) (s : Store) (id : ChainId) (new : Candidate) :
    (s.add c id new).2.chains.size = s.chains.size := by
  unfold Store.add
  cases c.place new (s.chain id).entries with
  | error g => rfl
  | ok es => simp [Store.setEntries, Store.count]

theorem Follows.added (h : Follows tree s past id) (hknown : tree.Known new (s.chain id).entries)
    (hes : (s'.chain id).entries = tree.insert new (s.chain id).entries)
    (hshadows : (s'.chain id).shadows = (s.chain id).shadows)
    (hothers : ∀ j, id ≠ j → s'.chain j = s.chain j) :
    Follows tree s' (Function.update past id ((past id).extended new)) id := by
  have hprev : (s'.chain id).previous? = (s.chain id).previous? := by
    rw [Chain.previous?, hshadows, Chain.previous?]
  constructor
  · rw [hes, Function.update_self, Past.added_extended]
    exact h.ranking.insert hknown
  · rw [hes, Function.update_self]
    exact h.copied.trans (TypeTree.sublist_insert _ _ _)
  · rw [hprev]
    exact h.older
  · intro p hp
    rw [hprev] at hp
    have hne : p ≠ id := by
      rintro rfl
      exact Nat.lt_irrefl _ (h.older p hp)
    rw [Function.update_self, Function.update_of_ne hne, hothers p (Ne.symm hne)]
    exact h.shadowed p hp

/-- A chain stays as it is when another one grows, which may be the one that it shadows. -/
theorem Follows.beside {j : ChainId} (h : Follows tree s past j) (hj : id ≠ j)
    (hothers : ∀ j, id ≠ j → s'.chain j = s.chain j) :
    Follows tree s' (Function.update past id ((past id).extended new)) j := by
  have hsame := hothers j hj
  have hpast : Function.update past id ((past id).extended new) j = past j :=
    Function.update_of_ne (Ne.symm hj) _ _
  constructor
  · rw [hsame, hpast]
    exact h.ranking
  · rw [hsame, hpast]
    exact h.copied
  · rw [hsame]
    exact h.older
  · intro p hp
    rw [hsame] at hp
    obtain ⟨hpre, heq⟩ := h.shadowed p hp
    rw [hpast]
    by_cases hp' : p = id
    -- The chain below has grown since it was copied, so it is no longer what was inherited.
    · subst hp'
      rw [Function.update_self, Past.added_extended]
      refine ⟨hpre.trans (List.prefix_append _ _), fun he => ?_⟩
      have hle := hpre.length_le
      have hlen := congrArg List.length he
      rw [List.length_append, List.length_singleton] at hlen
      omega
    · rw [Function.update_of_ne hp', hothers p (Ne.symm hp')]
      exact ⟨hpre, heq⟩

theorem kept_add (h : w.Kept past) (hid : w.Has id)
    (hok : (w.store.add w.catalog id new).1 = .ok ()) :
    Kept { w with store := (w.store.add w.catalog id new).2 }
      (Function.update past id ((past id).extended new)) := by
  obtain ⟨hknown, hes, hshadows, hothers⟩ := add_of_ok hid hok
  intro j hj
  have hold : Follows w.catalog.tree w.store past j := by
    apply h
    rw [Has] at hj ⊢
    rwa [size_add] at hj
  by_cases he : id = j
  · subst he
    exact hold.added hknown hes hshadows hothers
  · exact hold.beside he hothers

/-- What a job comes to: chains stay while types and counters change, one is made
with nothing or over another, or one takes a candidate. -/
inductive Turn (w : Workshop) (past : ChainId → Past) : Workshop → (ChainId → Past) → Prop where
  | still (w' : Workshop) (hg : w.catalog.tree.Grows w'.catalog.tree)
    (hs : w'.store.chains = w.store.chains) : Turn w past w' past
  | first (c : Chain) (hc : c.entries = []) (hprev : c.previous? = none) :
    Turn w past { w with store := (w.store.newChain c).2 }
      (Function.update past ⟨w.store.chains.size⟩ ⟨[], [], []⟩)
  | atop (p : ChainId) (hp : w.Has p) (c : Chain) (hc : c.entries = (w.store.chain p).entries)
    (hprev : c.previous? = some p) :
    Turn w past { w with store := (w.store.newChain c).2 }
      (Function.update past ⟨w.store.chains.size⟩
        ⟨(past p).added, (w.store.chain p).entries, []⟩)
  | taken (id : ChainId) (hid : w.Has id) (new : Candidate)
    (hok : (w.store.add w.catalog id new).1 = .ok ()) :
    Turn w past { w with store := (w.store.add w.catalog id new).2 }
      (Function.update past id ((past id).extended new))

theorem turn_step (w : Workshop) (past : ChainId → Past) (job : Job) :
    Turn w past (w.step job) (w.record past job) := by
  cases job with
  | register name parent =>
    simp only [step, record]
    cases hr : w.catalog.tree.register name parent with
    | error r => exact .still w (.refl _) rfl
    | ok q => exact .still _ (TypeTree.grows_register hr) rfl
  | declare on d =>
    simp only [step, record]
    cases hd : w.catalog.tree.declare on d with
    | error r => exact .still w (.refl _) rfl
    | ok tree => exact .still _ (TypeTree.grows_declare hd) rfl
  | setFault q t on => exact .still _ (.refl _) rfl
  | counter => exact .still _ (.refl _) rfl
  | first name level k => exact .first _ rfl rfl
  | shadow name level p =>
    simp only [step, record]
    by_cases hp : w.Has p
    · rw [if_pos hp, if_pos hp]
      exact .atop p hp _ rfl rfl
    · rw [if_neg hp, if_neg hp]
      exact .still w (.refl _) rfl
  | add id new =>
    simp only [step, record]
    by_cases hid : w.Has id
    · cases hr : (w.store.add w.catalog id new).1 with
      | error f =>
        rw [if_pos hid, if_neg (by simp), add_of_error hr]
        exact .still w (.refl _) rfl
      | ok u =>
        rw [if_pos hid, if_pos ⟨hid, rfl⟩]
        exact .taken id hid new hr
    · rw [if_neg hid, if_neg fun hc => hid hc.1]
      exact .still w (.refl _) rfl

theorem kept_step (h : w.Kept past) (job : Job) : (w.step job).Kept (w.record past job) := by
  have hturn := turn_step w past job
  generalize w.step job = w', w.record past job = past' at hturn ⊢
  cases hturn with
  | still _ hg hs =>
    intro id hid
    have hsame : ∀ j, w'.store.chain j = w.store.chain j := by
      intro j
      rw [Store.chain, hs, Store.chain]
    rw [Has, hs] at hid
    exact ((h id hid).grows hg).frame (hsame id) rfl fun p _ => ⟨hsame p, rfl⟩
  | first c hc hprev =>
    apply kept_newChain h
    · rw [hc]
      exact TypeTree.ranking_nil _
    · exact List.nil_sublist _
    · intro p hp
      rw [hprev] at hp
      cases hp
  | atop p hp c hc hprev =>
    apply kept_newChain h
    · rw [Past.added, List.append_nil, hc]
      exact (h p hp).ranking
    · rw [hc]
    · intro q hq
      cases hprev.symm.trans hq
      exact ⟨hp, rfl, rfl⟩
  | taken id hid new hok => exact kept_add h hid hok

theorem kept_run (h : w.Kept past) (jobs : List Job) :
    (w.run jobs).Kept (w.history past jobs) := by
  induction jobs generalizing w past with
  | nil => exact h
  | cons job jobs ih => exact ih (kept_step h job)

/-- Every chain holds what was added along its lineage, no candidate after one for an
ancestor of its target, those for one target as they came, and over it the chain that it
shadows. Additions are refused where a comparison fails, and then change nothing. -/
theorem chains_ordered (v : Option Log.Verbosity) (jobs : List Job) :
    let w := (Workshop.new v).run jobs
    let past := (Workshop.new v).history unmade jobs
    (∀ id, w.Has id →
      let es := (w.store.chain id).entries
      es.Perm (past id).added ∧
      es.Pairwise (fun e f => e.target ∉ w.catalog.tree.ancestors f.target) ∧
      (∀ t, es.filter (·.target = t) = (past id).added.filter (·.target = t)) ∧
      (past id).copied.Sublist es ∧
      ∀ p, (w.store.chain id).previous? = some p →
        (past id).inherited <+: (past p).added ∧
        ((past p).added = (past id).inherited → (w.store.chain p).entries = (past id).copied)) ∧
    ∀ id new f,
      ((w.store.add w.catalog id new).1 = .error f ↔
        w.catalog.Falters new (w.store.chain id).entries f) ∧
      ((w.store.add w.catalog id new).1 = .error f →
        (∀ j, (w.store.add w.catalog id new).2.chain j = w.store.chain j) ∧
        ∀ k, (w.store.add w.catalog id new).2.counter k = w.store.counter k) := by
  intro w past
  have hk : w.Kept past := kept_run (kept_new v) jobs
  constructor
  · intro id hid
    have h := hk id hid
    exact ⟨h.ranking.perm, h.ranking.ordered (TypeTree.Grows.refl _), h.ranking.stable, h.copied,
      h.shadowed⟩
  · intro id new f
    refine ⟨add_eq_error_iff, fun h => ?_⟩
    rw [add_of_error h]
    exact ⟨fun _ => rfl, fun _ => rfl⟩

def loose (n : Nat) (target : TypeId) : Candidate := .ofMethod ⟨.loose n, "f", target, target, none⟩

def outOfOrder : List Job :=
  [.register "Base" ⟨0⟩, .register "Other" ⟨0⟩, .register "Sub" ⟨1⟩, .counter,
   .first "f" 1 ⟨0⟩, .add ⟨0⟩ (loose 0 ⟨1⟩), .register "SubSub" ⟨3⟩,
   .add ⟨0⟩ (loose 1 ⟨4⟩), .add ⟨0⟩ (loose 2 ⟨2⟩), .shadow "f" 2 ⟨0⟩,
   .add ⟨1⟩ (loose 3 ⟨3⟩), .setFault .parent ⟨4⟩ true]

theorem chains_outOfOrder :
    let w := (Workshop.new none).run outOfOrder
    let es := (w.store.chain ⟨1⟩).entries
    es.map Candidate.target = [⟨4⟩, ⟨3⟩, ⟨1⟩, ⟨2⟩] ∧
      es.Pairwise (fun e f => e.target ∉ w.catalog.tree.ancestors f.target) ∧
      (w.store.chain ⟨0⟩).entries.Sublist es ∧
      (w.store.add w.catalog ⟨1⟩ (loose 4 ⟨4⟩)).2.chain ⟨1⟩ = w.store.chain ⟨1⟩ := by
  intro w es
  obtain ⟨hchains, hadd⟩ := chains_ordered none outOfOrder
  obtain ⟨-, hordered, -, hcopied, hbelow⟩ := hchains ⟨1⟩ (by decide +kernel)
  obtain ⟨hpre, hsame⟩ := hbelow ⟨0⟩ (by decide +kernel)
  refine ⟨by decide +kernel, hordered, ?_, ?_⟩
  · rw [hsame (hpre.eq_of_length (by decide +kernel)).symm]
    exact hcopied
  · exact ((hadd ⟨1⟩ (loose 4 ⟨4⟩) (.raised "parent fault 4")).2 (by decide +kernel)).1 ⟨1⟩

end Workshop

end ScopedMethods

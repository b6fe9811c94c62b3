import ScopedMethods.Proofs.Muting
import ScopedMethods.Session.Run

/-!
# Runs without a log

The same steps are taken with two loggers, or with none. Both runs are compared
with the run that has no logger. Where the names of the types that are laid are
given, each step has the same answer and destroys the same states in all of them,
and only the log lines differ.
-/

set_option autoImplicit false

namespace ScopedMethods

def Ending.isEntered : Ending → Bool
  | entered => true
  | _ => false

namespace Arena

/-- Types that an entry comes to have names, where their laying is reported. It comes to a
type if a scope that lays those before it can be entered. -/
def Names (a : Arena) (t key : Nat) (types : List TypeId) : Prop :=
  ∀ n : Fin types.length, (a.step t (.enter key (types.take n))).1.isEntered = true →
    (a.step t (.enter key (types.take n))).2.store.traced = true → a.catalog.Names types[n]

instance (a : Arena) (t key : Nat) (types : List TypeId) : Decidable (a.Names t key types) := by
  unfold Names
  infer_instance

variable (a : Arena) (t key : Nat)

def hush : Arena := { a with store := a.store.hush }

def hushed {α : Type} (o : α × Arena) : α × Arena := (o.1, o.2.hush)

@[simp]
theorem store_hush : a.hush.store = a.store.hush := rfl

@[simp]
theorem catalog_hush : a.hush.catalog = a.catalog := rfl

@[simp]
theorem realm?_hush : a.hush.realm? key = a.realm? key := rfl

@[simp]
theorem thread_hush : a.hush.thread t = a.thread t := rfl

@[simp]
theorem caller_hush : a.hush.caller t = a.caller t := rfl

theorem withThread_hush : a.hush.withThread t = (a.withThread t).hush := by
  rw [withThread, withThread]
  show (if a.threads.contains t then _ else _) = _
  split <;> rfl

theorem obtainRealm_hush : a.hush.obtainRealm t key = hushed (a.obtainRealm t key) := by
  simp only [obtainRealm, realm?_hush]
  cases a.realm? key <;> rfl

theorem inRealm_hush {α : Type} {f : Realm → Store → α × Realm × Store}
    (hf : ∀ r b, a.obtainRealm t key = (r, b) → f r b.store.hush = Store.hushed (f r b.store)) :
    a.hush.inRealm t key f = hushed (a.inRealm t key f) := by
  simp only [inRealm, obtainRealm_hush]
  generalize a.obtainRealm t key = o at hf
  obtain ⟨r, b⟩ := o
  simp only [hushed, store_hush, hf r b rfl]
  rfl

theorem asked_hush {α : Type} {f : Realm → Store → α × Realm × Store} (e : α → Ending)
    (hf : ∀ r s, f r s.hush = Store.hushed (f r s)) :
    (e (a.hush.inRealm t key f).1, (a.hush.inRealm t key f).2) =
      hushed (e (a.inRealm t key f).1, (a.inRealm t key f).2) := by
  rw [inRealm_hush a t key fun r b _ => hf r b.store]
  rfl

theorem destroyRealm_hush : a.hush.destroyRealm t key = (a.destroyRealm t key).hush := by
  simp only [destroyRealm, realm?_hush, store_hush, caller_hush, Realm.destroy_hush]
  cases a.realm? key <;> rfl

theorem createRealm_hush (o : Options) :
    a.hush.createRealm t key o = (a.createRealm t key o).hush := by
  have h := destroyRealm_hush
    { a with store := (Realm.create key o (a.caller t) a.store).2 } t key
  rw [createRealm, createRealm]
  exact congrArg (fun b : Arena => b.setRealm key (Realm.new key o) b.store) h

theorem leaveFrame_hush (f : Frame) : a.hush.leaveFrame t f = (a.leaveFrame t f).hush := by
  simp only [leaveFrame, realm?_hush, store_hush, caller_hush, Realm.leave_hush]
  cases a.realm? f.realm <;> rfl

theorem leaveFrames_hush (fs : List Frame) :
    a.hush.leaveFrames t fs = (a.leaveFrames t fs).hush := by
  induction fs generalizing a with
  | nil => rfl
  | cons f fs ih => exact (congrArg (leaveFrames t fs) (leaveFrame_hush a t f)).trans (ih _)

theorem exitRealm_hush : a.hush.exitRealm t key = (a.exitRealm t key).hush := by
  simp only [exitRealm, realm?_hush, store_hush, caller_hush, Realm.threadExit_hush]
  cases a.realm? key <;> rfl

theorem exitRealms_hush (keys : List Nat) :
    keys.foldl (exitRealm t) a.hush = (keys.foldl (exitRealm t) a).hush := by
  induction keys generalizing a with
  | nil => rfl
  | cons key keys ih =>
    exact (congrArg (keys.foldl (exitRealm t)) (exitRealm_hush a t key)).trans (ih _)

theorem exit_hush : a.hush.exit t = (a.exit t).hush := by
  have hexit := exitRealms_hush (a.leaveFrames t (a.thread t).frames) t
    (a.leaveFrames t (a.thread t).frames).realms.keys
  simp only [exit, thread_hush, leaveFrames_hush]
  exact congrArg (fun b : Arena => { b with threads := b.threads.erase t }) hexit

theorem raise_hush (n : Nat) : a.hush.raise t n = hushed (a.raise t n) := by
  simp only [raise, thread_hush, leaveFrames_hush]
  cases ((a.thread t).frames.take (max n 1)).getLast? <;> rfl

variable {a t key}

theorem enter_hush {types : List TypeId}
    (h : ∀ r b, a.obtainRealm t key = (r, b) →
      r.Names (a.caller t) b.store a.catalog types) :
    a.hush.enter t key types = hushed (a.enter t key types) := by
  have hin := inRealm_hush a t key (f := fun r s => r.enter a.catalog (a.caller t) types s)
    fun r b hr => Realm.enter_hush (h r b hr)
  simp only [enter, catalog_hush, caller_hush, hin]
  obtain ⟨result, b⟩ := a.inRealm t key fun r s => r.enter a.catalog (a.caller t) types s
  cases result <;> rfl

theorem Names.realm {types : List TypeId} (h : a.Names t key types) {r : Realm} {b : Arena}
    (hr : (a.withThread t).obtainRealm t key = (r, b)) :
    r.Names ((a.withThread t).caller t) b.store (a.withThread t).catalog types := by
  intro n ty hty i r' s' hn htraced
  obtain ⟨hlt, rfl⟩ := List.getElem?_eq_some_iff.1 hty
  have hstep : a.step t (.enter key (types.take n)) =
      (.entered, (b.setRealm key r' s').setFrames t
        (⟨key, i⟩ :: ((b.setRealm key r' s').thread t).frames)) := by
    show (a.withThread t).enter t key (types.take n) = _
    rw [enter, inRealm, hr]
    simp only [hn]
  have hnames := h ⟨n, hlt⟩
  rw [hstep] at hnames
  have hc : (a.withThread t).catalog = a.catalog := by
    rw [withThread]
    split <;> rfl
  rw [hc]
  exact hnames rfl htraced

theorem perform_hush {act : Act}
    (h : ∀ key types, act = .enter key types → ∀ r b, a.obtainRealm t key = (r, b) →
      r.Names (a.caller t) b.store a.catalog types) :
    a.hush.perform t act = hushed (a.perform t act) := by
  cases act with
  | register name parent =>
    simp only [perform, store_hush, catalog_hush, caller_hush, TypeTree.registerReporting_hush]
    rfl
  | declare on d =>
    simp only [perform, store_hush, catalog_hush, caller_hush, TypeTree.declareReporting_hush]
    rfl
  | setFault q ty on => rfl
  | createRealm key o => exact congrArg (Prod.mk _) (createRealm_hush a t key o)
  | destroyRealm key => exact congrArg (Prod.mk _) (destroyRealm_hush a t key)
  | enter key types => exact enter_hush (h key types rfl)
  | leave =>
    simp only [perform, thread_hush, leaveFrame_hush]
    cases (a.thread t).frames <;> rfl
  | raise n => exact raise_hush a t n
  | lookup key name =>
    exact asked_hush a t key .chain fun r s => r.lookup_hush (a.caller t) s name
  | activeHere key => exact asked_hush a t key .flag fun r s => r.activeHere_hush (a.caller t) s
  | currentLevel key =>
    exact asked_hush a t key .level fun r s => r.currentLevel_hush (a.caller t) s
  | nameUsage key name =>
    exact asked_hush a t key .counter fun r s => r.nameUsage_hush (a.caller t) s name
  | requestReclaim key =>
    exact asked_hush a t key .number fun r s => r.requestReclaim_hush (a.caller t) s
  | exit => exact congrArg (Prod.mk _) (exit_hush a t)
  | setNickname name system =>
    simp only [perform, setNickname]
    cases system <;> rfl

theorem step_hush {act : Act}
    (h : ∀ key types, act = .enter key types → a.Names t key types) :
    a.hush.step t act = hushed (a.step t act) := by
  have hthere : (a.withThread t).hush.perform t act = hushed ((a.withThread t).perform t act) :=
    perform_hush fun key types he r b hr => (h key types he).realm hr
  rw [← withThread_hush] at hthere
  cases act with
  | exit =>
    simp only [step]
    show (if a.threads.contains t then _ else _) = _
    split
    · refine perform_hush fun _ _ he => ?_
      cases he
    · rfl
  | _ => exact hthere

end Arena

namespace Session

def Names (s : Session) (t : Nat) : Request → Prop
  | .realm key (.enter types) => s.arena.Names t key types
  | .stack slot (.lay ty) => ∀ st ∈ s.stackTable.get? slot, st.level ≠ 0 →
    s.store.traced = true → s.arena.catalog.Names ty
  | _ => True

instance (s : Session) (t : Nat) (q : Request) : Decidable (s.Names t q) := by
  unfold Names
  split <;> infer_instance

variable (s : Session) (t : Nat)

def hush : Session := { s with arena := s.arena.hush }

def hushed {α : Type} (o : α × Session) : α × Session := (o.1, o.2.hush)

@[simp]
theorem arena_hush : s.hush.arena = s.arena.hush := rfl

@[simp]
theorem store_hush : s.hush.store = s.store.hush := rfl

@[simp]
theorem caller_hush : s.hush.caller t = s.caller t := rfl

@[simp]
theorem kept_hush : s.hush.kept = s.kept := rfl

@[simp]
theorem ledger_hush : s.hush.ledger = s.ledger := rfl

@[simp]
theorem stackTable_hush : s.hush.stackTable = s.stackTable := rfl

@[simp]
theorem counters_hush : s.hush.counters = s.counters := rfl

@[simp]
theorem candidates_hush : s.hush.candidates = s.candidates := rfl

@[simp]
theorem chains_hush : s.hush.chains = s.chains := rfl

@[simp]
theorem tenancies_hush : s.hush.tenancies = s.tenancies := rfl

theorem act_hush (act : Act)
    (h : ∀ key types, act = .enter key types → s.arena.Names t key types) :
    s.hush.act t act = hushed (s.act t act) := by
  simp only [Session.act, arena_hush, Arena.step_hush h]
  rfl

theorem obtainRealm_hush (key : Nat) : s.hush.obtainRealm t key = hushed (s.obtainRealm t key) := by
  simp only [obtainRealm, arena_hush, Arena.obtainRealm_hush]
  rfl

theorem lookup_hush (key : Nat) (name : String) :
    s.hush.lookup t key name = hushed (s.lookup t key name) := by
  rw [lookup, lookup, act_hush s t (.lookup key name) fun _ _ h => nomatch h]
  obtain ⟨e, s₁⟩ := s.act t (.lookup key name)
  cases e <;> rfl

theorem lookupAll_hush (key : Nat) (names : List String) :
    s.hush.lookupAll t key names = hushed (s.lookupAll t key names) := by
  induction names generalizing s with
  | nil => rfl
  | cons name names ih =>
    rw [lookupAll, lookupAll, lookup_hush]
    obtain ⟨id, s₁⟩ := s.lookup t key name
    simp only [hushed, ih]
    cases id <;> rfl

theorem level_hush (key : Nat) : s.hush.level t key = hushed (s.level t key) := by
  rw [level, level, act_hush s t (.currentLevel key) fun _ _ h => nomatch h]
  obtain ⟨e, s₁⟩ := s.act t (.currentLevel key)
  cases e <;> rfl

theorem here_hush (key : Nat) : s.hush.here t key = hushed (s.here t key) := by
  rw [here, here, act_hush s t (.activeHere key) fun _ _ h => nomatch h]
  obtain ⟨e, s₁⟩ := s.act t (.activeHere key)
  cases e <;> rfl

theorem realmStep_hush {key : Nat} {q : RealmStep} (h : s.Names t (.realm key q)) :
    s.hush.realmStep t key q = hushed (s.realmStep t key q) := by
  cases q with
  | create o =>
    rw [realmStep, realmStep, act_hush s t (.createRealm key o) fun _ _ h => nomatch h]
    rfl
  | destroy =>
    rw [realmStep, realmStep, act_hush s t (.destroyRealm key) fun _ _ h => nomatch h]
    rfl
  | enter types =>
    rw [realmStep, realmStep, act_hush s t (.enter key types) fun _ _ he => by cases he; exact h]
    obtain ⟨e, s₁⟩ := s.act t (.enter key types)
    cases e <;> rfl
  | lookup name =>
    rw [realmStep, realmStep, lookup_hush]
    rfl
  | keep slot name =>
    rw [realmStep, realmStep, lookup_hush]
    rfl
  | call name index args =>
    rw [realmStep, realmStep, lookup_hush]
    rfl
  | here =>
    rw [realmStep, realmStep, here_hush]
    rfl
  | level =>
    rw [realmStep, realmStep, level_hush]
    rfl
  | nameUsage name =>
    rw [realmStep, realmStep, act_hush s t (.nameUsage key name) fun _ _ h => nomatch h]
    obtain ⟨e, s₁⟩ := s.act t (.nameUsage key name)
    cases e <;> rfl
  | reclaim =>
    rw [realmStep, realmStep, act_hush s t (.requestReclaim key) fun _ _ h => nomatch h]
    obtain ⟨e, s₁⟩ := s.act t (.requestReclaim key)
    cases e <;> rfl
  | view =>
    rw [realmStep, realmStep, show s.hush.names = s.names from rfl, lookupAll_hush]
    obtain ⟨views, s₁⟩ := s.lookupAll t key s.names
    simp only [hushed]
    rw [level_hush]
    obtain ⟨n, s₂⟩ := s₁.level t key
    simp only [hushed]
    rw [here_hush]
    rfl
  | _ =>
    simp only [realmStep, obtainRealm_hush]
    rfl

theorem threadStep_hush (q : ThreadStep) : s.hush.threadStep t q = hushed (s.threadStep t q) := by
  cases q with
  | leave result =>
    rw [threadStep, threadStep, act_hush s t .leave fun _ _ h => nomatch h]
    obtain ⟨e, s₁⟩ := s.act t .leave
    cases e <;> rfl
  | raise message levels =>
    rw [threadStep, threadStep, act_hush s t (.raise levels) fun _ _ h => nomatch h]
    obtain ⟨e, s₁⟩ := s.act t (.raise levels)
    cases e <;> rfl
  | exit =>
    rw [threadStep, threadStep, act_hush s t .exit fun _ _ h => nomatch h]
    obtain ⟨e, s₁⟩ := s.act t .exit
    cases e <;> rfl
  | nickname name system =>
    rw [threadStep, threadStep, act_hush s t (.setNickname name system) fun _ _ h => nomatch h]
    rfl

theorem typeStep_hush (q : TypeStep) : s.hush.typeStep t q = hushed (s.typeStep t q) := by
  cases q with
  | register name parent form =>
    simp only [typeStep]
    rw [act_hush s t (.register name parent) fun _ _ h => nomatch h]
    obtain ⟨e, s₁⟩ := s.act t (.register name parent)
    cases e <;> rfl
  | declare on d form =>
    simp only [typeStep]
    rw [act_hush s t (.declare on d) fun _ _ h => nomatch h]
    obtain ⟨e, s₁⟩ := s.act t (.declare on d)
    cases e <;> rfl
  | fault q ty on =>
    simp only [typeStep]
    rw [act_hush s t (.setFault q ty on) fun _ _ h => nomatch h]
    rfl
  | _ => rfl

theorem keptStep_hush (q : KeptStep) : s.hush.keptStep q = hushed (s.keptStep q) := by
  cases q with
  | same a b =>
    simp only [keptStep, kept_hush]
    cases (s.kept.get? a).join <;> cases (s.kept.get? b).join <;> rfl
  | get slot =>
    simp only [keptStep, kept_hush]
    cases (s.kept.get? slot).join <;> rfl
  | drop slot => rfl

theorem site_hush (st : ScopeStack) : s.hush.site st = (s.site st).hush := rfl

theorem destroyStack_hush (slot : String) :
    s.hush.destroyStack t slot = (s.destroyStack t slot).hush := by
  simp only [destroyStack, stackTable_hush]
  cases s.stackTable.get? slot with
  | none => rfl
  | some st =>
    simp only [site_hush, caller_hush, Site.destroy_hush]
    rfl

theorem createStack_hush (slot : String) (maxDepth : Level) :
    s.hush.createStack t slot maxDepth = (s.createStack t slot maxDepth).hush := by
  have h := destroyStack_hush
    (s.setStore ((s.site (ScopeStack.new s.nextStack maxDepth)).created (s.caller t)).store) t slot
  rw [createStack, createStack]
  show (let b := (s.setStore ((s.site (ScopeStack.new s.nextStack maxDepth)).created
      (s.caller t)).store).hush.destroyStack t slot
    ({ b with
      stackTable := b.stackTable.set slot (ScopeStack.new s.nextStack maxDepth)
      nextStack := b.nextStack + 1 } : Session)) = _
  rw [h]
  rfl

theorem stackStep_hush {slot : String} {q : StackStep} (h : s.Names t (.stack slot q)) :
    s.hush.stackStep t slot q = hushed (s.stackStep t slot q) := by
  cases hst : s.stackTable.get? slot with
  | none =>
    cases q with
    | create maxDepth => exact congrArg (Prod.mk _) (createStack_hush s t slot maxDepth)
    | _ =>
      simp only [stackStep, stackTable_hush, hst]
      rfl
  | some st =>
    cases q with
    | create maxDepth => exact congrArg (Prod.mk _) (createStack_hush s t slot maxDepth)
    | enter form =>
      simp only [stackStep, stackTable_hush, hst, site_hush, caller_hush, Site.enter_hush]
      cases form <;> rfl
    | lay ty =>
      simp only [stackStep, stackTable_hush, hst, site_hush, caller_hush, arena_hush,
        Arena.catalog_hush]
      split
      · rfl
      · rename_i h0
        have hlay : (s.site st).hush.lay s.arena.catalog (s.caller t) ty =
            Site.hushed ((s.site st).lay s.arena.catalog (s.caller t) ty) :=
          Site.lay_hush (h st hst h0)
        rw [hlay]
        rfl
    | leave =>
      simp only [stackStep, stackTable_hush, hst, site_hush, caller_hush, Site.leave_hush]
      split <;> rfl
    | chain name keep =>
      simp only [stackStep, stackTable_hush, hst]
      cases st.chain? name <;> cases keep <;> rfl
    | destroy =>
      simp only [stackStep, stackTable_hush, hst, destroyStack_hush]
      rfl

theorem usage_hush (name : String) : s.hush.usage t name = hushed (s.usage t name) := by
  simp only [usage, ledger_hush, store_hush, caller_hush, Ledger.usage_hush]
  rfl

theorem ledgerStep_hush (q : LedgerStep) : s.hush.ledgerStep t q = hushed (s.ledgerStep t q) := by
  cases q with
  | add name n =>
    simp only [ledgerStep, usage_hush]
    rfl
  | count name => rfl
  | size => rfl

theorem createChain_hush (name : String) (level : Level) (previous counter : Option String) :
    s.hush.createChain name level previous counter =
      (s.createChain name level previous counter).map fun p => (p.1, p.2.hush) := by
  simp only [createChain, chains_hush, counters_hush]
  cases previous with
  | some p =>
    simp only
    cases s.chains.get? p <;> rfl
  | none =>
    simp only
    cases counter.bind fun c => s.counters.get? c <;> rfl

theorem chainStep_hush (q : ChainStep) : s.hush.chainStep t q = hushed (s.chainStep t q) := by
  cases q with
  | counter slot name =>
    cases name with
    | none => rfl
    | some name =>
      simp only [chainStep, usage_hush]
      rfl
  | counterValue slot =>
    simp only [chainStep, counters_hush]
    cases s.counters.get? slot <;> rfl
  | entryCopy slot source =>
    simp only [chainStep, candidates_hush]
    cases s.candidates.get? source <;> rfl
  | create slot name level previous counter =>
    simp only [chainStep, createChain_hush]
    cases s.createChain name level previous counter <;> rfl
  | add slot entry =>
    simp only [chainStep, chains_hush, candidates_hush]
    rcases s.chains.get? slot with _ | k <;> rcases s.candidates.get? entry with _ | e
    · rfl
    · rfl
    · rfl
    · simp only [store_hush, arena_hush, Arena.catalog_hush, Store.add_hush]
      obtain ⟨r, m⟩ := s.store.add s.arena.catalog k e
      cases r <;> rfl
  | get slot =>
    simp only [chainStep, chains_hush]
    cases s.chains.get? slot <;> rfl
  | _ => rfl

theorem lodge_hush (x : Tenancy) : s.hush.lodge x = (s.lodge x).hush := rfl

theorem setLodge_hush (l : Lodge) : s.hush.setLodge l.hush = (s.setLodge l).hush := rfl

theorem setTenancy_hush (slot : String) (x : Tenancy) (c : Custody) (l : Lodge) :
    s.hush.setTenancy slot x c l.hush = (s.setTenancy slot x c l).hush := rfl

theorem closeTenancy_hush (slot : String) :
    s.hush.closeTenancy t slot = (s.closeTenancy t slot).hush := by
  simp only [closeTenancy, tenancies_hush]
  cases s.tenancies.get? slot with
  | none => rfl
  | some x =>
    have h := Custody.close_over x.keeper_hush (s.caller t) x.custody (s.lodge x)
    simp only [lodge_hush, caller_hush, ← h, setLodge_hush]
    rfl

theorem createTenancy_hush (slot nickname : String) (p : TenancyPlan) (failures : Nat) :
    s.hush.createTenancy t slot nickname p failures =
      (s.createTenancy t slot nickname p failures).hush := by
  have h := closeTenancy_hush (s.setStore (Tenancy.create ⟨nickname, s.nextTenancy, "State"⟩ p
    failures (s.caller t) s.store).2) t slot
  rw [createTenancy, createTenancy]
  show (let b := (s.setStore (Tenancy.create ⟨nickname, s.nextTenancy, "State"⟩ p failures
      (s.caller t) s.store).2).hush.closeTenancy t slot
    ({ b with
      tenancies := b.tenancies.set slot (Tenancy.create ⟨nickname, s.nextTenancy, "State"⟩ p
        failures (s.caller t) s.store).1
      nextTenancy := b.nextTenancy + 1 } : Session)) = _
  rw [h]
  rfl

theorem tenancyStep_hush (slot : String) (q : TenancyStep) :
    s.hush.tenancyStep t slot q = hushed (s.tenancyStep t slot q) := by
  cases hx : s.tenancies.get? slot with
  | none =>
    cases q with
    | create nickname p failures =>
      exact congrArg (Prod.mk _) (createTenancy_hush s t slot nickname p failures)
    | _ =>
      simp only [tenancyStep, tenancies_hush, hx]
      rfl
  | some x =>
    have hk := x.keeper_hush
    cases q with
    | create nickname p failures =>
      exact congrArg (Prod.mk _) (createTenancy_hush s t slot nickname p failures)
    | obtain =>
      simp only [tenancyStep, tenancies_hush, hx, lodge_hush, caller_hush, ← Custody.obtain_over hk]
      obtain ⟨r, c, l⟩ := x.custody.obtain x.keeper (s.caller t) (s.lodge x)
      cases r <;> rfl
    | peek =>
      simp only [tenancyStep, tenancies_hush, hx, lodge_hush, caller_hush, ← Custody.peek_over hk]
      rfl
    | release =>
      simp only [tenancyStep, tenancies_hush, hx, lodge_hush, caller_hush,
        ← Custody.surrender_over hk]
      rfl
    | reclaim =>
      simp only [tenancyStep, tenancies_hush, hx, lodge_hush, caller_hush,
        ← Custody.requestReclaim_over hk]
      rfl
    | change busy stuff =>
      simp only [tenancyStep, tenancies_hush, hx, lodge_hush, caller_hush, ← Custody.obtain_over hk]
      obtain ⟨r, c, l⟩ := x.custody.obtain x.keeper (s.caller t) (s.lodge x)
      cases r with
      | error f => rfl
      | ok k =>
        simp only [Custody.shown, Lodge.change_hush, setTenancy_hush]
        rfl
    | destroy =>
      simp only [tenancyStep, tenancies_hush, hx, closeTenancy_hush]
      rfl
    | _ =>
      simp only [tenancyStep, tenancies_hush, hx]
      rfl

theorem exitTenancy_hush (slot : String) :
    s.hush.exitTenancy t slot = (s.exitTenancy t slot).hush := by
  simp only [exitTenancy, tenancies_hush]
  cases s.tenancies.get? slot with
  | none => rfl
  | some x =>
    have h := Custody.exit_over x.keeper_hush (s.caller t) x.custody (s.lodge x)
    simp only [lodge_hush, caller_hush, ← h, setTenancy_hush]

theorem exitTenancies_hush : s.hush.exitTenancies t = (s.exitTenancies t).hush := by
  have hfold : ∀ (slots : List String) (s : Session),
      slots.foldl (exitTenancy t) s.hush = (slots.foldl (exitTenancy t) s).hush := by
    intro slots
    induction slots with
    | nil => exact fun _ => rfl
    | cons slot slots ih =>
      intro s
      rw [List.foldl_cons, List.foldl_cons, exitTenancy_hush, ih]
  exact hfold s.tenancies.keys s

theorem withThread_hush : s.hush.withThread t = (s.withThread t).hush := by
  simp only [withThread, arena_hush, Arena.withThread_hush]
  rfl

variable {s}

theorem answer_hush {q : Step} (h : (s.withThread q.thread).Names q.thread q.request) :
    s.hush.answer q = hushed (s.answer q) := by
  obtain ⟨t, r⟩ := q
  cases r with
  | types q =>
    simp only [answer, withThread_hush]
    exact typeStep_hush _ t q
  | realm key q =>
    simp only [answer, withThread_hush]
    exact realmStep_hush _ t h
  | thread q =>
    cases q with
    | exit =>
      simp only [answer, threadStep_hush, hushed, exitTenancies_hush]
    | _ =>
      simp only [answer, withThread_hush]
      exact threadStep_hush _ t _
  | kept q =>
    simp only [answer, withThread_hush]
    exact keptStep_hush _ q
  | stack slot q =>
    simp only [answer, withThread_hush]
    exact stackStep_hush _ t h
  | ledger q =>
    simp only [answer, withThread_hush]
    exact ledgerStep_hush _ t q
  | chain q =>
    simp only [answer, withThread_hush]
    exact chainStep_hush _ t q
  | tenancy slot q =>
    simp only [answer, withThread_hush]
    exact tenancyStep_hush _ t slot q

/-- A reply but for the log lines. -/
def Reply.unlogged (r : Reply) : Answer × List Nat := (r.answer, r.destroyed)

def Named : Session → List Step → Prop
  | _, [] => True
  | s, q :: qs =>
    (s.fresh.withThread q.thread).Names q.thread q.request ∧ Named (s.step q).2 qs

instance decidableNamed (s : Session) : (qs : List Step) → Decidable (s.Named qs)
  | [] => .isTrue trivial
  | q :: qs =>
    have := decidableNamed (s.step q).2 qs
    inferInstanceAs (Decidable ((s.fresh.withThread q.thread).Names q.thread q.request ∧
      Named (s.step q).2 qs))

theorem step_hush {q : Step} (h : (s.fresh.withThread q.thread).Names q.thread q.request) :
    (s.hush.step q).1.unlogged = (s.step q).1.unlogged ∧
      (s.hush.step q).2 = (s.step q).2.hush := by
  have hanswer : s.hush.fresh.answer q = hushed (s.fresh.answer q) := answer_hush h
  simp only [step, hanswer]
  exact ⟨rfl, rfl⟩

theorem run_hush {qs : List Step} (h : s.Named qs) :
    (s.hush.run qs).1.map Reply.unlogged = (s.run qs).1.map Reply.unlogged ∧
      (s.hush.run qs).2 = (s.run qs).2.hush := by
  induction qs generalizing s with
  | nil => exact ⟨rfl, rfl⟩
  | cons q qs ih =>
    obtain ⟨hreply, hstep⟩ := step_hush h.1
    obtain ⟨hreplies, hrun⟩ := ih h.2
    simp only [run, List.map_cons, hreply, hstep]
    exact ⟨congrArg _ hreplies, hrun⟩

/-- The log does not change what is done: with any two verbosities, or without a logger, the
same steps have the same answers, destroy the same states and leave the same session but for
the log, as long as no type that is laid and reported lacks a name. Without faults none does. -/
theorem logging_unseen :
    (∀ (v v' : Option Log.Verbosity) (qs : List Step),
      (Session.new v).Named qs → (Session.new v').Named qs →
        ((Session.new v).run qs).1.map Reply.unlogged =
          ((Session.new v').run qs).1.map Reply.unlogged ∧
        ((Session.new v).run qs).2.hush = ((Session.new v').run qs).2.hush) ∧
    ∀ (tree : TypeTree) (ty : TypeId), (⟨tree, []⟩ : Catalog).Names ty := by
  refine ⟨fun v v' qs h h' => ?_, Catalog.names_of_faultless⟩
  obtain ⟨hreplies, hrun⟩ := run_hush h
  obtain ⟨hreplies', hrun'⟩ := run_hush h'
  have hnew : (Session.new v).hush = (Session.new v').hush := rfl
  rw [← hreplies, ← hreplies', ← hrun, ← hrun', hnew]
  exact ⟨rfl, rfl⟩

/-- A name that is not given is missed only where it is asked for. -/
example : ∀ v ∈ [none, some (Log.Verbosity.new .trace)],
    (((Arena.new v).run [(0, .register "Base" ⟨0⟩), (0, .setFault .name ⟨1⟩ true)]).step 0
      (.enter 0 [⟨1⟩])).1.isEntered = v.isNone := by
  decide +kernel

/-- Threads in a realm with a depth limit, a stack by itself and a tenancy; for one type
neither parent nor name is given. -/
def watched : List Step :=
  [⟨0, .types (.register "Base" ⟨0⟩ .raising)⟩, ⟨0, .types (.register "Odd" ⟨0⟩ .raising)⟩,
   ⟨0, .types (.declare ⟨1⟩ ⟨"f", [⟨1⟩], true, true, none⟩ .reporting)⟩,
   ⟨0, .types (.fault .name ⟨2⟩ true)⟩, ⟨0, .types (.fault .parent ⟨2⟩ true)⟩,
   ⟨0, .realm 0 (.create { maxDepth := 1 })⟩, ⟨0, .realm 0 (.enter [⟨1⟩])⟩,
   ⟨1, .realm 0 (.enter [⟨1⟩, ⟨2⟩])⟩, ⟨0, .realm 0 (.enter [⟨1⟩])⟩, ⟨1, .realm 0 .reclaim⟩,
   ⟨0, .realm 0 .view⟩, ⟨0, .thread (.leave .nothing)⟩, ⟨1, .stack "a" (.create 0)⟩,
   ⟨1, .stack "a" (.enter .reporting)⟩, ⟨1, .stack "a" (.lay ⟨1⟩)⟩, ⟨1, .stack "a" .destroy⟩,
   ⟨0, .tenancy "t" (.create "t" ⟨"x", true⟩ 1)⟩, ⟨0, .tenancy "t" .obtain⟩,
   ⟨0, .tenancy "t" .obtain⟩, ⟨0, .thread .exit⟩, ⟨1, .tenancy "t" .destroy⟩]

theorem logging_watched :
    ((Session.new (some (.new .trace))).run watched).1.map Reply.unlogged =
        ((Session.new none).run watched).1.map Reply.unlogged ∧
      ((Session.new (some (.new .trace))).run watched).1.map (fun r => r.lines.length) ≠
        ((Session.new none).run watched).1.map (fun r => r.lines.length) := by
  constructor
  · exact (logging_unseen.1 _ _ watched (by decide +kernel) (by decide +kernel)).1
  · decide +kernel

end Session

end ScopedMethods

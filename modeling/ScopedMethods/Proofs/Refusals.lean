import ScopedMethods.Proofs.Calls
import ScopedMethods.Proofs.Work
import ScopedMethods.Session.Run

/-!
# The contract of refusals

Registering a type, declaring a method and entering a scope are refused for their
causes and nothing else. Both forms of such a call do the same; one leaves the code
of the cause in its place, the other raises it. But for the log a refused call
leaves everything as it was, so that no later answer of a session tells of it.
-/

set_option autoImplicit false

namespace ScopedMethods

section Contract

variable {σ α : Type}

/-- How a call and its two forms answer to the causes for which it can be refused. -/
structure Contract (op : Coded σ → α × Coded σ) (Unchanged : σ → σ → Prop)
    (Refused : ErrorCode → Prop) (x : σ) : Prop where
  /-- The code is written over whatever the place held. -/
  written : ∀ code held, (inForm op (some held) x).1.2 = some (some code) ↔ Refused code
  cleared : ∀ held, (inForm op (some held) x).1.2 = some none ↔ ∀ code, ¬Refused code
  returned : ∀ held f, (inForm op (some held) x).1.1 ≠ .error f
  raised : ∀ f, (inForm op none x).1.1 = .error f ↔ ∃ code, f = .code code ∧ Refused code
  alike : (∀ code, ¬Refused code) → ∀ held,
    (inForm op none x).1.1 = (inForm op (some held) x).1.1
  reached : ∀ place place', (inForm op place x).2 = (inForm op place' x).2
  unchanged : ∀ code place, Refused code → Unchanged x (inForm op place x).2

variable {op : Coded σ → α × Coded σ} {Unchanged : σ → σ → Prop} {Refused : ErrorCode → Prop}
  {x y : σ} {r : Reported α}

/-- A call that settles for the causes that it is refused for keeps its contract. -/
theorem Settles.contract (h : Settles op x r y) (hcode : ∀ code, r.code = some code ↔ Refused code)
    (hsame : r.code ≠ none → Unchanged x y) : Contract op Unchanged Refused x := by
  have hnone : r.code = none ↔ ∀ code, ¬Refused code := by
    rw [Option.eq_none_iff_forall_ne_some]
    exact forall_congr' fun code => not_congr (hcode code)
  constructor
  · intro code held
    rw [h.reporting, ← hcode]
    exact Option.some_inj
  · intro held
    rw [h.reporting, ← hnone]
    exact Option.some_inj
  · intro held f
    rw [h.reporting]
    exact fun he => nomatch he
  · intro f
    rw [h.raising, Reported.orRaise]
    cases hc : r.code with
    | none => exact iff_of_false (fun he => nomatch he) fun ⟨code, _, hr⟩ => hnone.1 hc code hr
    | some c =>
      constructor
      · intro he
        cases he
        exact ⟨c, rfl, (hcode c).1 hc⟩
      · rintro ⟨code, rfl, hr⟩
        cases hc.symm.trans ((hcode code).2 hr)
        rfl
  · intro hall held
    rw [h.raising, h.reporting, Reported.orRaise, hnone.2 hall]
  · intro place place'
    rw [h.state, h.state]
  · intro code place hr
    rw [h.state]
    exact hsame (by rw [(hcode code).2 hr]; exact Option.some_ne_none code)

/-- The check that is given its code keeps the contract, too. -/
theorem contract_check (c : Caller) (code : Option ErrorCode) (s : Store) :
    Contract (Store.check c code) Store.Same (code = some ·) s := by
  cases code with
  | none =>
    have h : Settles (Store.check c none) s (.success 7) s := .accepted _ _ fun _ => rfl
    exact h.contract (fun _ => Iff.rfl) fun h => absurd rfl h
  | some e =>
    have h : Settles (Store.check c (some e)) s ⟨-1, some e⟩ (s.note c (.codeEmitted .errors e)) :=
      .refused _ _ _ fun _ => rfl
    exact h.contract (fun _ => Iff.rfl) fun _ => (Store.Same.refl s).note c _

end Contract

def TypeTree.RefusesType (tree : TypeTree) (name : String) (parent : TypeId)
    (code : ErrorCode) : Prop :=
  code = .typeNotRegistered ∧ tree.registered parent = false ∨
    code = .typeAlreadyRegistered ∧ tree.registered parent = true ∧ tree.Taken name

def TypeTree.RefusesMethod (tree : TypeTree) (on : TypeId) (d : MethodDecl)
    (code : ErrorCode) : Prop :=
  code = .methodNameEmpty ∧ d.name = "" ∨
    code = .typeNotRegistered ∧ d.name ≠ "" ∧
      (tree.registered on = false ∨ ∃ p ∈ d.params, tree.registered p = false)

def Site.RefusesScope (w : Site) (code : ErrorCode) : Prop :=
  code = .nestingTooDeep ∧ w.stack.maxDepth ≠ 0 ∧ w.stack.maxDepth ≤ w.stack.level

namespace Registry

structure Unchanged (g g' : Registry) : Prop where
  tree : g'.tree = g.tree
  store : g.store.Same g'.store

theorem contract_register (g : Registry) (c : Caller) (name : String) (parent : TypeId) :
    Contract (register c name parent) Unchanged (g.tree.RefusesType name parent) g := by
  have hcase := TypeTree.registering g.tree name parent
  cases hr : g.tree.register name parent with
  | error r =>
    refine (register_error hr c).contract (fun code => ?_) fun _ =>
      ⟨rfl, (Store.Same.refl _).refuse c 0 r⟩
    rw [TypeTree.RefusesType]
    rw [hr] at hcase
    cases hcase with
    | unknown hparent => simp [Refusal.code, hparent, eq_comm]
    | taken hparent hname => simp [Refusal.code, hparent, hname, eq_comm]
  | ok p =>
    refine (register_ok hr c).contract (fun code => ?_) fun h => absurd rfl h
    rw [TypeTree.RefusesType]
    rw [hr] at hcase
    cases hcase with
    | added hparent hname tree' htypes hcount => simp [Reported.success, hparent, hname]

theorem contract_declare (g : Registry) (c : Caller) (on : TypeId) (d : MethodDecl) :
    Contract (declare c on d) Unchanged (g.tree.RefusesMethod on d) g := by
  have hcase := TypeTree.declaring g.tree on d
  cases hd : g.tree.declare on d with
  | error r =>
    refine (declare_error hd c).contract (fun code => ?_) fun _ =>
      ⟨rfl, (Store.Same.refl _).refuse c 0 r⟩
    rw [TypeTree.RefusesMethod]
    rw [hd] at hcase
    cases hcase with
    | unnamed hname =>
      constructor
      · intro h
        cases h
        exact Or.inl ⟨rfl, hname⟩
      · rintro (⟨rfl, -⟩ | ⟨-, hne, -⟩)
        · rfl
        · exact absurd hname hne
    | unknown hname hon =>
      constructor
      · intro h
        cases h
        exact Or.inr ⟨rfl, hname, Or.inl hon⟩
      · rintro (⟨-, he⟩ | ⟨rfl, -⟩)
        · exact absurd he hname
        · rfl
    | parameter hname hon p hp hunknown =>
      constructor
      · intro h
        cases h
        exact Or.inr ⟨rfl, hname, Or.inr ⟨p, hp, hunknown⟩⟩
      · rintro (⟨-, he⟩ | ⟨rfl, -⟩)
        · exact absurd he hname
        · rfl
  | ok tree' =>
    refine (declare_ok hd c).contract (fun code => ?_) fun h => absurd rfl h
    rw [TypeTree.RefusesMethod]
    rw [hd] at hcase
    cases hcase with
    | added hname hon hparams =>
      have hnone : ¬∃ p ∈ d.params, g.tree.registered p = false := by
        rintro ⟨p, hp, hunknown⟩
        rw [hparams p hp] at hunknown
        cases hunknown
      simp [Reported.success, hname, hon, hnone]

end Registry

namespace Site

structure Unchanged (w w' : Site) : Prop where
  stack : w'.stack = w.stack
  ledger : w'.ledger = w.ledger
  store : w.store.Same w'.store

variable {w : Site}

theorem settles_full (hfull : w.full = true) (c : Caller) :
    Settles (beginScope c) w ⟨(), some .nestingTooDeep⟩
      { w with store := w.store.refuse c w.stack.id (.atMaximum w.stack.level) } := by
  refine .refused _ _ _ fun held => ?_
  simp only [beginScope]
  rw [if_pos hfull]
  rfl

theorem settles_below (hfull : ¬ w.full = true) (c : Caller) :
    Settles (beginScope c) w (.success ()) (w.enter c).2 := by
  refine .accepted _ _ fun held => ?_
  rw [enter_eq, if_neg hfull]
  simp only [beginScope]
  rw [if_neg hfull]
  rfl

theorem contract_beginScope (w : Site) (c : Caller) :
    Contract (beginScope c) Unchanged w.RefusesScope w := by
  have hiff : w.full = true ↔ w.stack.maxDepth ≠ 0 ∧ w.stack.maxDepth ≤ w.stack.level := by
    simp [full]
  by_cases hfull : w.full = true
  · refine (settles_full hfull c).contract (fun code => ?_) fun _ =>
      ⟨rfl, rfl, (Store.Same.refl _).refuse c _ _⟩
    rw [RefusesScope, ← hiff]
    simp [hfull, eq_comm]
  · refine (settles_below hfull c).contract (fun code => ?_) fun h => absurd rfl h
    rw [RefusesScope, ← hiff]
    simp [Reported.success, hfull]

end Site

theorem Slots.set_of_get? {κ β : Type} [DecidableEq κ] {k : κ} {v : β} {s : Slots κ β}
    (h : s.get? k = some v) : s.set k v = s := by
  induction s with
  | nil => cases h
  | cons p s ih =>
    by_cases hk : p.1 = k
    · rw [Slots.get?, if_pos hk] at h
      cases h
      rw [Slots.set, if_pos hk, ← hk]
    · rw [Slots.get?, if_neg hk] at h
      rw [Slots.set, if_neg hk, ih h]

namespace Session

variable {s s' : Session} {t : Nat} {name slot : String} {parent on : TypeId} {d : MethodDecl}
  {form : Form} {code : ErrorCode}

/-- Whatever is asked of the two later, the answers are the same. -/
def Indistinct (s s' : Session) : Prop := ∀ qs, (s.run qs).1 = (s'.run qs).1

theorem indistinct_of_fresh (h : s.fresh = s'.fresh) : s.Indistinct s' := by
  intro qs
  cases qs with
  | nil => rfl
  | cons q qs => simp only [run, step, h]

theorem fresh_setStore {m : Store} (h : s.store.Same m) : (s.setStore m).fresh = s.fresh := by
  obtain ⟨hchains, hcounters, hverbosity⟩ := h
  obtain ⟨chains, counters, ⟨verbosity, entries⟩⟩ := m
  cases hchains
  cases hcounters
  cases hverbosity
  rfl

theorem withThread_fresh (s : Session) (t : Nat) :
    (s.fresh.withThread t).fresh = (s.withThread t).fresh := by
  unfold withThread Arena.withThread fresh
  split <;> split <;> first | rfl | contradiction

theorem withThread_arena (s : Session) (t : Nat) :
    (s.withThread t).arena.withThread t = (s.withThread t).arena := by
  unfold withThread Arena.withThread
  by_cases h : s.arena.threads.contains t = true
  · rw [if_pos h, if_pos h]
  · rw [if_neg h, if_pos]
    rw [Slots.contains, Arena.setThread, Slots.get?_set_self]
    rfl

theorem tree_withThread (s : Session) (t : Nat) :
    (s.fresh.withThread t).arena.catalog.tree = s.arena.catalog.tree := by
  unfold withThread Arena.withThread
  split <;> rfl

def registry (s : Session) : Registry := ⟨s.arena.catalog.tree, s.store⟩

def setRegistry (s : Session) (g : Registry) : Session :=
  { s with arena := { s.arena with
      catalog := { s.arena.catalog with tree := g.tree }
      store := g.store } }

theorem fresh_setRegistry {g : Registry} (h : s.registry.Unchanged g) :
    (s.setRegistry g).fresh = s.fresh := by
  obtain ⟨tree, store⟩ := g
  obtain ⟨htree, hstore⟩ := h
  cases htree
  exact fresh_setStore hstore

def naming (s : Session) (name : String) : Session :=
  { s with names := insertOrdered name s.names }

def Form.place : Form → CodePlace
  | .reporting => some none
  | .raising => none

def registeredAnswer : Delivery TypeId → Answer
  | (.error f, _) => .failure f
  | (.ok id, none) => .type id
  | (.ok id, some code) => .registered ⟨id, code⟩

def declaredAnswer : Delivery Unit → Answer
  | (.error f, _) => .failure f
  | (.ok _, none) => .flag true
  | (.ok _, some code) => .declared code

def enteredAnswer (w : Site) : Delivery Unit → Answer
  | (.error f, _) => .failure f
  | (.ok _, none) => scopeAnswer none w
  | (.ok _, some code) => scopeAnswer (some code) w

theorem typeStep_register (ht : s.arena.withThread t = s.arena) (form : Form) :
    let o := inForm (Registry.register (s.caller t) name parent) form.place s.registry
    s.typeStep t (.register name parent form) = (registeredAnswer o.1, s.setRegistry o.2) := by
  intro o
  obtain ⟨r, g, hs⟩ := Registry.register_settles s.registry (s.caller t) name parent
  have hreported : s.arena.catalog.tree.registerReporting (s.caller t) name parent s.store =
      (r, g.tree, g.store) := by
    rw [TypeTree.registerReporting]
    exact congrArg (fun o => (o.1, o.2.tree, o.2.store)) hs.reported
  have hanswer : registerAnswer form r = registeredAnswer o.1 := by
    obtain ⟨id, code⟩ := r
    cases form with
    | reporting => exact congrArg (fun o => registeredAnswer o.1) (hs.reporting none).symm
    | raising =>
      refine Eq.trans ?_ (congrArg (fun o => registeredAnswer o.1) hs.raising.symm)
      cases code <;> rfl
  simp only [typeStep, act, Arena.step, ht, Arena.perform]
  rw [show s.arena.caller t = s.caller t from rfl, show s.arena.store = s.store from rfl,
    hreported, ← hanswer, show o.2 = g from hs.state form.place]
  rfl

theorem typeStep_declare (ht : s.arena.withThread t = s.arena) (form : Form) :
    let o := inForm (Registry.declare (s.caller t) on d) form.place s.registry
    s.typeStep t (.declare on d form) =
      (declaredAnswer o.1, (s.setRegistry o.2).naming d.name) := by
  intro o
  obtain ⟨r, g, hs⟩ := Registry.declare_settles s.registry (s.caller t) on d
  have hreported : s.arena.catalog.tree.declareReporting (s.caller t) on d s.store =
      (r, g.tree, g.store) := by
    rw [TypeTree.declareReporting]
    exact congrArg (fun o => (o.1, o.2.tree, o.2.store)) hs.reported
  have hanswer : declareAnswer form r = declaredAnswer o.1 := by
    obtain ⟨u, code⟩ := r
    cases form with
    | reporting => exact congrArg (fun o => declaredAnswer o.1) (hs.reporting none).symm
    | raising =>
      refine Eq.trans ?_ (congrArg (fun o => declaredAnswer o.1) hs.raising.symm)
      cases code <;> rfl
  simp only [typeStep, act, Arena.step, ht, Arena.perform]
  rw [show s.arena.caller t = s.caller t from rfl, show s.arena.store = s.store from rfl,
    hreported, ← hanswer, show o.2 = g from hs.state form.place]
  rfl

theorem stackStep_enter {stack : ScopeStack} (hs : s.stackTable.get? slot = some stack)
    (form : Form) :
    let o := inForm (Site.beginScope (s.caller t)) form.place (s.site stack)
    s.stackStep t slot (.enter form) = (enteredAnswer o.2 o.1, s.setSite slot o.2) := by
  intro o
  simp only [stackStep, hs]
  cases form with
  | reporting => rfl
  | raising =>
    show (failed ((s.site stack).enter (s.caller t)).1.orRaise _, _) =
      (enteredAnswer _ (((s.site stack).enter (s.caller t)).1.orRaise, none), _)
    cases ((s.site stack).enter (s.caller t)).1.orRaise <;> rfl

theorem indistinct_register (h : s.arena.catalog.tree.RefusesType name parent code) :
    (s.step ⟨t, .types (.register name parent form)⟩).2.Indistinct (s.withThread t) := by
  apply indistinct_of_fresh
  rw [← tree_withThread s t] at h
  have hcontract := Registry.contract_register (s.fresh.withThread t).registry
    ((s.fresh.withThread t).caller t) name parent
  calc
    (s.step ⟨t, .types (.register name parent form)⟩).2.fresh =
        ((s.fresh.withThread t).typeStep t (.register name parent form)).2.fresh := rfl
    _ = (s.fresh.withThread t).fresh := by
      rw [typeStep_register (withThread_arena _ t)]
      exact fresh_setRegistry (hcontract.unchanged code form.place h)
    _ = (s.withThread t).fresh := withThread_fresh s t

theorem indistinct_declare (h : s.arena.catalog.tree.RefusesMethod on d code) :
    (s.step ⟨t, .types (.declare on d form)⟩).2.Indistinct ((s.withThread t).naming d.name) := by
  apply indistinct_of_fresh
  rw [← tree_withThread s t] at h
  have hcontract := Registry.contract_declare (s.fresh.withThread t).registry
    ((s.fresh.withThread t).caller t) on d
  have hsame := fresh_setRegistry (hcontract.unchanged code form.place h)
  calc
    (s.step ⟨t, .types (.declare on d form)⟩).2.fresh =
        ((s.fresh.withThread t).typeStep t (.declare on d form)).2.fresh := rfl
    _ = (s.fresh.withThread t).fresh.naming d.name := by
      rw [typeStep_declare (withThread_arena _ t)]
      exact congrArg (fun x : Session => x.naming d.name) hsame
    _ = (s.withThread t).fresh.naming d.name := by rw [withThread_fresh]

theorem indistinct_enter {stack : ScopeStack} (hs : s.stackTable.get? slot = some stack)
    (h : (s.site stack).RefusesScope code) :
    (s.step ⟨t, .stack slot (.enter form)⟩).2.Indistinct (s.withThread t) := by
  apply indistinct_of_fresh
  have hstack : (s.fresh.withThread t).stackTable.get? slot = some stack := hs
  have hrefuses : ((s.fresh.withThread t).site stack).RefusesScope code := h
  have hcontract := Site.contract_beginScope ((s.fresh.withThread t).site stack)
    ((s.fresh.withThread t).caller t)
  obtain ⟨hkept, hledger, hstore⟩ := hcontract.unchanged code form.place hrefuses
  have hset : (s.fresh.withThread t).stackTable.set slot stack =
      (s.fresh.withThread t).stackTable := Slots.set_of_get? hstack
  calc
    (s.step ⟨t, .stack slot (.enter form)⟩).2.fresh =
        ((s.fresh.withThread t).stackStep t slot (.enter form)).2.fresh := rfl
    _ = (s.fresh.withThread t).fresh := by
      rw [stackStep_enter hstack]
      simp only [setSite, hkept, hledger]
      show Session.fresh { (s.fresh.withThread t).setStore _ with
        stackTable := (s.fresh.withThread t).stackTable.set slot stack } = _
      rw [hset]
      exact fresh_setStore hstore
    _ = (s.withThread t).fresh := withThread_fresh s t

/-- The steps of a session that can be refused are the calls that can be refused. -/
structure Performs (s : Session) (t : Nat) (name slot : String) (parent on : TypeId)
    (d : MethodDecl) (form : Form) : Prop where
  register : let o := inForm (Registry.register (s.caller t) name parent) form.place s.registry
    s.typeStep t (.register name parent form) = (registeredAnswer o.1, s.setRegistry o.2)
  declare : let o := inForm (Registry.declare (s.caller t) on d) form.place s.registry
    s.typeStep t (.declare on d form) = (declaredAnswer o.1, (s.setRegistry o.2).naming d.name)
  enter : ∀ stack, s.stackTable.get? slot = some stack →
    let o := inForm (Site.beginScope (s.caller t)) form.place (s.site stack)
    s.stackStep t slot (.enter form) = (enteredAnswer o.2 o.1, s.setSite slot o.2)

/-- What is refused of a session makes no difference to what it answers from then on. -/
structure Forgets (s : Session) (t : Nat) (name slot : String) (parent on : TypeId)
    (d : MethodDecl) (form : Form) : Prop where
  register : ∀ code, s.arena.catalog.tree.RefusesType name parent code →
    (s.step ⟨t, .types (.register name parent form)⟩).2.Indistinct (s.withThread t)
  declare : ∀ code, s.arena.catalog.tree.RefusesMethod on d code →
    (s.step ⟨t, .types (.declare on d form)⟩).2.Indistinct ((s.withThread t).naming d.name)
  enter : ∀ stack code, s.stackTable.get? slot = some stack →
    (s.site stack).RefusesScope code →
    (s.step ⟨t, .stack slot (.enter form)⟩).2.Indistinct (s.withThread t)

end Session

/-- The three calls that can be refused keep their contract in every state. The steps of a
session are these calls, and one that was refused is not noticed in any later answer. -/
theorem refusals_settled (g : Registry) (w : Site) (c : Caller) (s : Session) (t : Nat)
    (name slot : String) (parent on : TypeId) (d : MethodDecl) (form : Session.Form) :
    Contract (Registry.register c name parent) Registry.Unchanged
        (g.tree.RefusesType name parent) g ∧
      Contract (Registry.declare c on d) Registry.Unchanged (g.tree.RefusesMethod on d) g ∧
      Contract (Site.beginScope c) Site.Unchanged w.RefusesScope w ∧
      (s.withThread t).Performs t name slot parent on d form ∧
      s.Forgets t name slot parent on d form := by
  have hthread := Session.withThread_arena s t
  refine ⟨g.contract_register c name parent, g.contract_declare c on d, w.contract_beginScope c,
    ⟨?_, ?_, ?_⟩, ⟨?_, ?_, ?_⟩⟩
  · exact Session.typeStep_register hthread form
  · exact Session.typeStep_declare hthread form
  · exact fun stack hs => Session.stackStep_enter hs form
  · exact fun code h => Session.indistinct_register h
  · exact fun code h => Session.indistinct_declare h
  · exact fun stack code hs h => Session.indistinct_enter hs h

theorem refusals_settled_root :
    let g : Registry := ⟨TypeTree.new, Store.new none⟩
    let d : MethodDecl := ⟨"f", [⟨0⟩, ⟨7⟩], false, true, none⟩
    let held := some (some ErrorCode.nestingTooDeep)
    (inForm (Registry.register ⟨0, ""⟩ TypeTree.rootName ⟨0⟩) held g).1.2 =
        some (some .typeAlreadyRegistered) ∧
      (inForm (Registry.register ⟨0, ""⟩ "Number" ⟨0⟩) held g).1.2 = some none ∧
      (inForm (Registry.declare ⟨0, ""⟩ ⟨0⟩ d) none g).1.1 = .error (.code .typeNotRegistered) ∧
      ((Session.new none).step ⟨0, .types (.declare ⟨0⟩ d .raising)⟩).2.Indistinct
        (((Session.new none).withThread 0).naming "f") := by
  intro g d held
  have hsettled := fun name => refusals_settled g ⟨Store.new none, Ledger.new 0, ScopeStack.new 0 1⟩
    ⟨0, ""⟩ (Session.new none) 0 name "s" ⟨0⟩ ⟨0⟩ d .raising
  obtain ⟨hregister, hdeclare, -, -, hforgets⟩ := hsettled TypeTree.rootName
  have htaken : g.tree.RefusesType TypeTree.rootName ⟨0⟩ .typeAlreadyRegistered :=
    Or.inr ⟨rfl, by decide +kernel, ⟨0⟩, ⟨TypeTree.rootName, none, [], 0⟩, rfl, rfl⟩
  have hfree : ∀ code, ¬g.tree.RefusesType "Number" ⟨0⟩ code := by
    rintro code (⟨-, hparent⟩ | ⟨-, -, htaken⟩)
    · exact absurd hparent (by decide +kernel)
    · exact TypeTree.find?_eq_none_iff.1 (by decide +kernel) htaken
  have hunknown : g.tree.RefusesMethod ⟨0⟩ d .typeNotRegistered :=
    Or.inr ⟨rfl, by decide, Or.inr ⟨⟨7⟩, by decide, by decide +kernel⟩⟩
  refine ⟨(hregister.written _ _).2 htaken, ((hsettled "Number").1.cleared _).2 hfree,
    (hdeclare.raised _).2 ⟨_, rfl, hunknown⟩, ?_⟩
  exact hforgets.declare .typeNotRegistered hunknown

end ScopedMethods

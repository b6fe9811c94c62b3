import ScopedMethods.Proofs.Calls
import ScopedMethods.Proofs.Estate
import ScopedMethods.Proofs.Scoping

/-!
# Work without a log

Without its log a store, and what is at work on it, does the same: every operation
ends as it would end with the log, and leaves the same but for the log. Only the
laying of a type asks for what it reports, the name of the type; it does the same
as far as that name is given.
-/

set_option autoImplicit false

namespace ScopedMethods

/-- The name of a type is given if its ancestry is. -/
def Catalog.Names (c : Catalog) (ty : TypeId) : Prop :=
  (c.ancestry ty).isOk = true → (c.typeName ty).isOk = true

instance (c : Catalog) (ty : TypeId) : Decidable (c.Names ty) := by
  unfold Catalog.Names
  infer_instance

theorem Catalog.names_of_faultless (tree : TypeTree) (ty : TypeId) :
    (⟨tree, []⟩ : Catalog).Names ty := by
  intro h
  cases hi : tree.info? ty with
  | some i =>
    have hinfo : (⟨tree, []⟩ : Catalog).info .name ty = .ok i := by
      simp only [info, hi]
      rfl
    rw [typeName, hinfo]
    rfl
  | none =>
    have hinfo : (⟨tree, []⟩ : Catalog).info .parent ty = .error (.code .typeNotRegistered) := by
      simp only [info, hi]
      rfl
    have hp : (⟨tree, []⟩ : Catalog).parent ty = .error (.code .typeNotRegistered) := by
      rw [parent, hinfo]
      rfl
    rw [ancestry] at h
    split at h
    · cases h
    all_goals
      rename_i heq
      rw [hp] at heq
      cases heq

namespace Store

variable (s : Store) (t : Caller)

/-- The store without its log, and without a logger. -/
def hush : Store := { s with journal := Journal.new none }

def hushed {α β : Type} (o : α × β × Store) : α × β × Store := (o.1, o.2.1, o.2.2.hush)

@[simp]
theorem chain_hush (id : ChainId) : s.hush.chain id = s.chain id := rfl

@[simp]
theorem count_hush (id : CounterId) (n : Int32) : s.hush.count id n = (s.count id n).hush := rfl

@[simp]
theorem note_hush (e : Event) : s.hush.note t e = (s.note t e).hush := rfl

@[simp]
theorem refuse_hush (object : Nat) (r : Refusal) :
    s.hush.refuse t object r = (s.refuse t object r).hush := by
  have h : (Journal.new none).refuse t object r = Journal.new none := by
    rw [Journal.refuse]
    split <;> rfl
  exact congrArg (Store.mk s.chains s.counters) h

theorem add_hush (c : Catalog) (k : ChainId) (new : Candidate) :
    s.hush.add c k new = (s.add c k new).map id hush := by
  simp only [add, chain_hush]
  cases c.place new (s.chain k).entries <;> rfl

end Store

theorem Ledger.usage_hush (l : Ledger) (t : Caller) (name : String) (s : Store) :
    l.usage t name s.hush = ((l.usage t name s).1, (l.usage t name s).2.1.hush,
      (l.usage t name s).2.2) := by
  rw [usage, usage]
  cases l.counters.get? name <;> rfl

theorem TypeTree.registerReporting_hush (tree : TypeTree) (t : Caller) (name : String)
    (parent : TypeId) (s : Store) :
    tree.registerReporting t name parent s.hush =
      Store.hushed (tree.registerReporting t name parent s) := by
  rw [registerReporting_eq, registerReporting_eq]
  cases tree.register name parent with
  | error r => exact congrArg (Prod.mk _ <| Prod.mk _ ·) (s.refuse_hush t 0 r)
  | ok p => rfl

theorem TypeTree.declareReporting_hush (tree : TypeTree) (t : Caller) (on : TypeId)
    (d : MethodDecl) (s : Store) :
    tree.declareReporting t on d s.hush = Store.hushed (tree.declareReporting t on d s) := by
  rw [declareReporting_eq, declareReporting_eq]
  cases tree.declare on d with
  | error r => exact congrArg (Prod.mk _ <| Prod.mk _ ·) (s.refuse_hush t 0 r)
  | ok tree' =>
    simp only
    cases tree'.info? on <;> rfl

namespace Site

variable (c : Catalog) (t : Caller) (w : Site)

def hush : Site := { w with store := w.store.hush }

def hushed {α : Type} (o : α × Site) : α × Site := (o.1, o.2.hush)

@[simp]
theorem store_hush : w.hush.store = w.store.hush := rfl

@[simp]
theorem ledger_hush : w.hush.ledger = w.ledger := rfl

@[simp]
theorem stack_hush : w.hush.stack = w.stack := rfl

theorem enter_hush : w.hush.enter t = hushed (w.enter t) := by
  have hf : w.hush.full = w.full := rfl
  simp only [enter_eq, hf, store_hush, stack_hush, Store.refuse_hush]
  split <;> rfl

theorem touch_hush (name : String) : w.hush.touch t name = hushed (w.touch t name) := by
  simp only [touch, store_hush, ledger_hush, stack_hush, Store.chain_hush, Ledger.usage_hush]
  cases w.stack.chain? name with
  | some k =>
    show (if (w.store.chain k).level = w.stack.level then _ else _) =
      hushed (if (w.store.chain k).level = w.stack.level then _ else _)
    split <;> rfl
  | none => rfl

theorem offer_hush (m : Method) : w.hush.offer c t m = hushed (w.offer c t m) := by
  rw [offer, offer, touch_hush]
  obtain ⟨k, w₁⟩ := w.touch t m.name
  simp only [hushed, store_hush, Store.add_hush]
  obtain ⟨r, s₁⟩ := w₁.store.add c k (.ofMethod m)
  cases r <;> rfl

theorem offerAll_hush (ms : List Method) :
    w.hush.offerAll c t ms = hushed (w.offerAll c t ms) := by
  induction ms generalizing w with
  | nil => rfl
  | cons m ms ih =>
    rw [offerAll, offerAll, offer_hush]
    obtain ⟨r, w₁⟩ := w.offer c t m
    cases r with
    | error f => rfl
    | ok u => exact ih w₁

theorem offerTypes_hush (line : List TypeId) :
    w.hush.offerTypes c t line = hushed (w.offerTypes c t line) := by
  induction line generalizing w with
  | nil => rfl
  | cons ty line ih =>
    rw [offerTypes, offerTypes]
    cases c.methods ty with
    | error f => rfl
    | ok ms =>
      simp only
      rw [offerAll_hush]
      obtain ⟨r, w₁⟩ := w.offerAll c t ms
      cases r with
      | error f => rfl
      | ok u => exact ih w₁

variable {c t w}

theorem announce_hush {ty : TypeId} (h : w.traced = true → (c.typeName ty).isOk = true) (n : Nat) :
    w.hush.announce c t ty n = hushed (w.announce c t ty n) := by
  have hquiet : w.hush.announce c t ty n = (.ok (), w.hush) := rfl
  rw [hquiet, announce]
  split
  · rename_i htraced
    have hname := h htraced
    cases hn : c.typeName ty with
    | error f =>
      rw [hn] at hname
      cases hname
    | ok name => rfl
  · rfl

theorem lay_hush {ty : TypeId} (h : w.traced = true → c.Names ty) :
    w.hush.lay c t ty = hushed (w.lay c t ty) := by
  rw [lay, lay]
  cases ha : c.ancestry ty with
  | error f => rfl
  | ok line =>
    have hname : w.traced = true → (c.typeName ty).isOk = true := fun htraced =>
      h htraced (by rw [ha]; rfl)
    simp only
    rw [announce_hush hname]
    obtain ⟨r, w₁⟩ := w.announce c t ty line.length
    cases r with
    | error f => rfl
    | ok u => exact offerTypes_hush c t w₁ line

theorem layAll_append (xs ys : List TypeId) :
    w.layAll c t (xs ++ ys) =
      match w.layAll c t xs with
      | (.error f, w) => (.error f, w)
      | (.ok (), w) => w.layAll c t ys := by
  rw [layAll_eq_carry, TypeTree.plan, List.flatMap_append, carry_append, layAll_eq_carry]
  simp only [layAll_eq_carry]
  rfl

theorem verbosity_touch (name : String) :
    (w.touch t name).2.store.journal.verbosity = w.store.journal.verbosity := by
  rw [touch]
  cases w.stack.chain? name with
  | some id =>
    simp only
    split
    · rfl
    · exact Journal.verbosity_note _ t _
  | none =>
    refine (Journal.verbosity_note _ t _).trans ?_
    show (w.ledger.usage t name w.store).2.1.journal.verbosity = _
    rw [Ledger.usage]
    cases w.ledger.counters.get? name with
    | some k => rfl
    | none => exact Journal.verbosity_note _ t _

theorem verbosity_offer (m : Method) :
    (w.offer c t m).2.store.journal.verbosity = w.store.journal.verbosity := by
  have ht := verbosity_touch (t := t) (w := w) m.name
  rw [offer]
  generalize w.touch t m.name = o at ht
  obtain ⟨id, w₁⟩ := o
  simp only [Store.add]
  cases c.place (.ofMethod m) (w₁.store.chain id).entries with
  | error f => exact ht
  | ok es => exact (Journal.verbosity_note _ t _).trans ht

theorem verbosity_announce (ty : TypeId) (n : Nat) :
    (w.announce c t ty n).2.store.journal.verbosity = w.store.journal.verbosity := by
  rw [announce]
  split
  · cases c.typeName ty with
    | error f => rfl
    | ok name => exact Journal.verbosity_note _ t _
  · rfl

theorem verbosity_carry (tasks : List Task) :
    (w.carry c t tasks).2.store.journal.verbosity = w.store.journal.verbosity := by
  induction tasks generalizing w with
  | nil => rfl
  | cons task tasks ih =>
    cases task with
    | ask q ty =>
      rw [carry]
      cases c.info q ty with
      | error f => rfl
      | ok i => exact ih
    | announce ty n =>
      have h := verbosity_announce (c := c) (t := t) (w := w) ty n
      rw [carry]
      generalize w.announce c t ty n = o at h
      obtain ⟨r, w₁⟩ := o
      cases r with
      | error f => exact h
      | ok u => exact ih.trans h
    | offer m =>
      have h := verbosity_offer (c := c) (t := t) (w := w) m
      rw [carry]
      generalize w.offer c t m = o at h
      obtain ⟨r, w₁⟩ := o
      cases r with
      | error f => exact h
      | ok u => exact ih.trans h

theorem traced_layAll (types : List TypeId) : (w.layAll c t types).2.traced = w.traced := by
  rw [layAll_eq_carry]
  exact admits_congr (verbosity_carry _) _ _

theorem layAll_take_hush {types : List TypeId} (report : Nat → Event)
    (h : ∀ n ty, types[n]? = some ty →
      ((w.note t (report n)).layAll c t (types.take n)).1 = .ok () → w.traced = true → c.Names ty)
    (n : Nat) (e : Event) :
    w.hush.layAll c t (types.take n) = hushed ((w.note t e).layAll c t (types.take n)) := by
  -- For all reports: that the next type is come to is known of the laying with its own report.
  induction n generalizing e with
  | zero => rfl
  | succ n ih =>
    have hresult := congrArg Prod.fst ((ih (report n)).symm.trans (ih e))
    have htraced : ((w.note t e).layAll c t (types.take n)).2.traced = w.traced :=
      (traced_layAll _).trans (admits_congr (Journal.verbosity_note _ t e) _ _)
    rw [List.take_add_one, layAll_append, layAll_append, ih e]
    change ((w.note t (report n)).layAll c t (types.take n)).1 =
      ((w.note t e).layAll c t (types.take n)).1 at hresult
    generalize (w.note t e).layAll c t (types.take n) = o at hresult htraced
    obtain ⟨r, w₁⟩ := o
    cases r with
    | error f => rfl
    | ok u =>
      show w₁.hush.layAll c t types[n]?.toList = hushed (w₁.layAll c t types[n]?.toList)
      cases hty : types[n]? with
      | none => rfl
      | some ty =>
        have hlay : w₁.hush.lay c t ty = hushed (w₁.lay c t ty) := lay_hush fun htr =>
          h n ty hty hresult (htraced ▸ htr)
        rw [Option.toList, layAll, layAll, hlay]
        obtain ⟨r, w₂⟩ := w₁.lay c t ty
        cases r <;> rfl

variable (t w)

theorem revert_hush (level : Level) (s : Store) (chains : Slots String ChainId) :
    revert level s.hush chains =
      ((revert level s chains).1.hush, (revert level s chains).2) := by
  induction chains generalizing s with
  | nil => rfl
  | cons p rest ih =>
    obtain ⟨name, k⟩ := p
    have hsurplus : surplus s.hush k = surplus s k := rfl
    simp only [revert, Store.chain_hush, Store.count_hush, hsurplus, ih]
    split
    · cases (s.chain k).previous? <;> rfl
    · rfl

theorem leave_hush : w.hush.leave t = (w.leave t).hush := by
  simp only [leave, store_hush, stack_hush, revert_hush]
  rfl

theorem leaveTimes_hush (n : Nat) : w.hush.leaveTimes t n = (w.leaveTimes t n).hush := by
  induction n generalizing w with
  | zero => rfl
  | succ n ih =>
    rw [leaveTimes, leaveTimes, leave_hush]
    exact ih _

theorem destroy_hush : w.hush.destroy t = (w.destroy t).hush := by
  have hnote : ∀ (w : Site) e, w.hush.note t e = (w.note t e).hush := fun _ _ => rfl
  simp only [destroy, stack_hush, hnote, leaveTimes_hush]
  split <;> rfl

end Site

namespace Grounds

variable (g : Grounds) (t : Caller)

def hush : Grounds := { g with store := g.store.hush }

@[simp]
theorem stackTable_hush : g.hush.stackTable = g.stackTable := rfl

theorem onStack_hush (id : Nat) {f : Site → Site} (hf : ∀ w, f w.hush = (f w).hush) :
    g.hush.onStack id f = (g.onStack id f).hush := by
  simp only [onStack, stackTable_hush]
  cases g.stackTable.get? id with
  | none => rfl
  | some st =>
    have h := hf ⟨g.store, g.ledger, st⟩
    show (⟨(f (Site.hush ⟨g.store, g.ledger, st⟩)).store,
      (f (Site.hush ⟨g.store, g.ledger, st⟩)).ledger,
      g.stackTable.set id (f (Site.hush ⟨g.store, g.ledger, st⟩)).stack, g.nextStack⟩ : Grounds) = _
    rw [h]
    rfl

/-- The keeper of a realm does the same without the log. -/
theorem keeper_hush (o : Options) : (keeper o).Over hush (keeper o) where
  create := by
    intro t g
    have h := onStack_hush { g with
      stackTable := g.stackTable.set g.nextStack (ScopeStack.new g.nextStack o.maxDepth)
      nextStack := g.nextStack + 1 } g.nextStack (f := Site.created t) fun _ => rfl
    exact congrArg (Prod.mk _) h.symm
  destroy := by
    intro t id g
    have h := g.onStack_hush id (Site.destroy_hush t)
    simp only [keeper, destroy]
    rw [h]
    rfl
  reclaimable := fun _ _ => rfl
  note := fun _ _ _ => rfl

end Grounds

def Lodge.hush (l : Lodge) : Lodge := { l with store := l.store.hush }

theorem Lodge.change_hush (l : Lodge) (id : Nat) (busy : Option Bool) (stuff : Option String) :
    l.hush.change id busy stuff = (l.change id busy stuff).hush := by
  have htenants : l.hush.tenants = l.tenants := rfl
  simp only [change, htenants]
  cases l.tenants.get? id <;> rfl

theorem Lodge.keeper_hush (p : TenancyPlan) : (keeper p).Over hush (keeper p) where
  create := by
    rintro t ⟨s, tenants, next, departed, failures⟩
    cases failures <;> rfl
  destroy := fun _ _ _ => rfl
  reclaimable := fun _ _ => rfl
  note := fun _ _ _ => rfl

theorem Tenancy.keeper_hush (x : Tenancy) : x.keeper.Over Lodge.hush x.keeper :=
  Lodge.keeper_hush x.plan

namespace Realm

open Store (hushed)

variable (t : Caller) (r : Realm) (s : Store)

theorem grounds_hush : r.grounds s.hush = (r.grounds s).hush := rfl

theorem keeper_hush : r.keeper.Over Grounds.hush r.keeper := Grounds.keeper_hush r.options

theorem peek_hush : r.peek t s.hush = hushed (r.peek t s) := by
  simp only [peek, grounds_hush]
  rw [← Custody.peek_over r.keeper_hush]
  rfl

theorem lookup_hush (name : String) : r.lookup t name s.hush = hushed (r.lookup t name s) := by
  rw [lookup, lookup, peek_hush]
  obtain ⟨st, r₁, s₁⟩ := r.peek t s
  cases st <;> rfl

theorem currentLevel_hush : r.currentLevel t s.hush = hushed (r.currentLevel t s) := by
  rw [currentLevel, currentLevel, peek_hush]
  rfl

theorem activeHere_hush : r.activeHere t s.hush = hushed (r.activeHere t s) := by
  rw [activeHere, activeHere, currentLevel_hush]
  split <;> rfl

theorem nameUsage_hush (name : String) :
    r.nameUsage t name s.hush = hushed (r.nameUsage t name s) := by
  rw [nameUsage, nameUsage, Ledger.usage_hush]
  rfl

theorem requestReclaim_hush : r.requestReclaim t s.hush = hushed (r.requestReclaim t s) := rfl

theorem leave_hush (i : Nat) :
    r.leave t i s.hush = ((r.leave t i s).1, (r.leave t i s).2.hush) := by
  have hon : (r.grounds s.hush).onStack i (Site.leave t) =
      ((r.grounds s).onStack i (Site.leave t)).hush :=
    (r.grounds s).onStack_hush i (Site.leave_hush t)
  -- The grounds are rewritten while they are bound, as the test on the level depends on them.
  rw [leave, leave, hon]
  generalize (r.grounds s).onStack i (Site.leave t) = g
  have h := Custody.surrender_over r.keeper_hush t r.custody g
  show (if (g.levelOf i = 0 && r.options.releaseIdle) = true then _ else _) = _
  simp only [← h]
  split <;> rfl

theorem atStack_hush {α : Type} (i : Nat) {f : Site → Outcome Site α}
    (hf : ∀ st, r.stack? i = some st →
      f (Site.hush ⟨s, r.ledger, st⟩) = Site.hushed (f ⟨s, r.ledger, st⟩)) :
    r.atStack i f s.hush = hushed (r.atStack i f s) := by
  simp only [atStack]
  cases hst : r.stackTable.get? i with
  | none => rfl
  | some st =>
    have h := hf st hst
    change f ⟨s.hush, r.ledger, st⟩ = _ at h
    simp only [h]
    rfl

theorem threadExit_hush :
    r.threadExit t s.hush = ((r.threadExit t s).1, (r.threadExit t s).2.hush) := by
  simp only [threadExit, grounds_hush]
  rw [← Custody.exit_over r.keeper_hush]
  rfl

theorem destroy_hush : r.destroy t s.hush = ((r.destroy t s).1, (r.destroy t s).2.hush) := by
  simp only [destroy, Store.note_hush, grounds_hush]
  rw [← Custody.close_over r.keeper_hush]
  rfl

def Names (c : Catalog) (types : List TypeId) : Prop :=
  ∀ n ty, types[n]? = some ty → ∀ i r' s', r.enter c t (types.take n) s = (.ok i, r', s') →
    s'.traced = true → c.Names ty

theorem concluded_hush (i : Nat) (o : Except Failure Unit × Realm × Store) :
    concluded t i (hushed o) = hushed (concluded t i o) := by
  obtain ⟨laid, r₁, s₁⟩ := o
  cases laid with
  | error f => exact congrArg (Prod.mk _) (leave_hush t r₁ s₁ i)
  | ok u => rfl

variable {t r s} {c : Catalog} {types : List TypeId} {i : Nat}

theorem layTypes_hush {w : Site} {realm : Nat}
    (h : ∀ n ty, types[n]? = some ty → (layTypes c t (types.take n) realm w).1 = .ok () →
      (layTypes c t (types.take n) realm w).2.traced = true → c.Names ty) :
    layTypes c t types realm w.hush = Site.hushed (layTypes c t types realm w) := by
  have htraced : ∀ n, (layTypes c t (types.take n) realm w).2.traced = w.traced := fun n =>
    (Site.traced_layAll _).trans (Site.admits_congr (Journal.verbosity_note _ t _) _ _)
  have hlay := Site.layAll_take_hush
    (fun n => .typesLaid realm (types.take n).length w.stack.level)
    (fun n ty hty hok htr => h n ty hty hok ((htraced n).trans htr)) types.length
    (.typesLaid realm types.length w.stack.level)
  rw [List.take_length] at hlay
  exact hlay

theorem enterOn_hush (h : ∀ n ty, types[n]? = some ty → ∀ j r' s',
      enterOn c t (types.take n) i r s = (.ok j, r', s') → s'.traced = true → c.Names ty) :
    enterOn c t types i r s.hush = hushed (enterOn c t types i r s) := by
  simp only [enterOn, enterOnBy] at h ⊢
  rw [atStack_hush r s i fun st _ => by rw [Site.enter_hush]; rfl]
  generalize r.atStack i _ s = o at h ⊢
  obtain ⟨opened, r₁, s₁⟩ := o
  cases opened with
  | error f => rfl
  | ok u =>
    refine Eq.trans (congrArg (concluded t i) ?_) (concluded_hush t i _)
    refine atStack_hush r₁ s₁ i fun st hst => layTypes_hush fun n ty hty hok htr => ?_
    have hn := atStack_eq (s := s₁) hst (layTypes c t (types.take n) r₁.id)
    rw [hok] at hn
    exact h n ty hty i _ _ (congrArg (concluded t i) hn) htr

theorem enter_hush (h : r.Names t s c types) :
    r.enter c t types s.hush = hushed (r.enter c t types s) := by
  have hobtain := Custody.obtain_over r.keeper_hush t r.custody (r.grounds s)
  simp only [Names, enter] at h
  simp only [enter, grounds_hush, ← hobtain]
  generalize r.custody.obtain r.keeper t (r.grounds s) = o at h ⊢
  obtain ⟨found, c₁, g⟩ := o
  cases found with
  | error f => rfl
  | ok i => exact enterOn_hush h

end Realm

end ScopedMethods

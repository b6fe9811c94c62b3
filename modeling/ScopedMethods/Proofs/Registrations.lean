import ScopedMethods.Proofs.Isolation
import ScopedMethods.Proofs.Ranking
import ScopedMethods.Proofs.Reference

/-!
# Registrations

What nested scopes register under a name, in order, and the tree along a run:
it only grows, and the target of an eligible method is registered in it. So the
candidates that a look-up finds are a ranking of the registrations, though each
scope placed its own by an older tree.
-/

set_option autoImplicit false

namespace ScopedMethods

namespace TypeTree

/-- The targets of eligible methods are types of the tree. -/
def Targeted (tree : TypeTree) : Prop :=
  ∀ t, ∀ m ∈ tree.methodsOf t, tree.registered m.target = true

variable {tree tree' : TypeTree}

theorem targeted_new : TypeTree.new.Targeted := by
  intro t m hm
  cases hi : TypeTree.new.info? t with
  | none => simp [methodsOf, hi] at hm
  | some i =>
    have hmem : i ∈ TypeTree.new.types := Array.mem_of_getElem? hi
    obtain rfl : i = ⟨rootName, none, [], 0⟩ := by simpa [TypeTree.new] using hmem
    simp [methodsOf, hi] at hm

theorem targeted_register {name : String} {parent id : TypeId} (ht : tree.Targeted)
    (h : tree.register name parent = .ok (id, tree')) : tree'.Targeted := by
  have hg := grows_register h
  have hcase := registering tree name parent
  rw [h] at hcase
  cases hcase with
  | added hparent hname _ htypes hcount =>
    intro t m hm
    apply hg.registered
    apply ht t
    rw [methodsOf, info?_of_push htypes] at hm
    by_cases hnew : t.number = tree.size
    · rw [if_pos hnew] at hm
      cases hm
    · rw [if_neg hnew] at hm
      exact hm

theorem registered_of_methodOf {on : TypeId} {d : MethodDecl} {m : Method}
    (hd : ∀ p ∈ d.params, tree.registered p = true) (hm : tree.methodOf on d = some m) :
    tree.registered m.target = true := by
  unfold methodOf at hm
  split at hm
  · cases hm
  · rename_i target rest hp
    split at hm
    · cases hm
      apply hd
      rw [hp]
      exact List.mem_cons_self
    · cases hm

theorem methodsOf_updateMethods {on t : TypeId} {x : Option Method} {m : Method}
    (hm : m ∈ (tree.updateMethods on x).methodsOf t) : m ∈ tree.methodsOf t ∨ x = some m := by
  rw [methodsOf, info?_updateMethods] at hm
  rw [methodsOf]
  cases hi : tree.info? t with
  | none => simp [hi] at hm
  | some i =>
    rw [hi, Option.map_some] at hm
    by_cases ht : on = t
    · simpa [ht, TypeInfo.withMethod] using hm
    · rw [if_neg ht] at hm
      exact Or.inl hm

theorem targeted_declare {on : TypeId} {d : MethodDecl} (ht : tree.Targeted)
    (h : tree.declare on d = .ok tree') : tree'.Targeted := by
  have hg := grows_declare h
  have hcase := declaring tree on d
  rw [h] at hcase
  cases hcase with
  | added hname hon hparams =>
    intro t m hm
    apply hg.registered
    rcases methodsOf_updateMethods hm with hm | hm
    · exact ht t m hm
    · exact registered_of_methodOf hparams hm

theorem tree_registerReporting (tree : TypeTree) (c : Caller) (name : String) (parent : TypeId)
    (s : Store) : tree.Grows (tree.registerReporting c name parent s).2.1 ∧
      (tree.Targeted → (tree.registerReporting c name parent s).2.1.Targeted) := by
  rw [registerReporting_eq]
  cases h : tree.register name parent with
  | error r => exact ⟨.refl _, fun ht => ht⟩
  | ok p => exact ⟨grows_register h, fun ht => targeted_register ht h⟩

theorem tree_declareReporting (tree : TypeTree) (c : Caller) (on : TypeId) (d : MethodDecl)
    (s : Store) : tree.Grows (tree.declareReporting c on d s).2.1 ∧
      (tree.Targeted → (tree.declareReporting c on d s).2.1.Targeted) := by
  cases h : tree.declare on d with
  | error r =>
    rw [declareReporting_eq, h]
    exact ⟨.refl _, fun ht => ht⟩
  | ok tree' =>
    have he : (tree.declareReporting c on d s).2.1 = tree' := by
      rw [declareReporting_eq, h]
      simp only
      cases tree'.info? on <;> rfl
    rw [he]
    exact ⟨grows_declare h, fun ht => targeted_declare ht h⟩

end TypeTree

namespace Laying

def registrations (name : String) : List Laying → List Candidate
  | [] => []
  | l :: outer => registrations name outer ++ l.offers name

theorem registrations_eq_nil (name : String) (ls : List Laying) :
    registrations name ls = [] ↔ ∀ l ∈ ls, l.offers name = [] := by
  induction ls with
  | nil => simp [registrations]
  | cons l outer ih =>
    rw [registrations, List.append_eq_nil_iff, ih, List.forall_mem_cons, and_comm]

/-- Scopes that were entered one after another while the tree grew up to now. -/
structure Dated (tree : TypeTree) (ls : List Laying) : Prop where
  past : ∀ l ∈ ls, l.tree.Targeted ∧ l.tree.Grows tree
  nested : ls.Pairwise fun inner outer => outer.tree.Grows inner.tree

variable {tree tree' : TypeTree} {l : Laying} {ls ls' : List Laying}

theorem dated_nil (tree : TypeTree) : Dated tree [] :=
  ⟨by simp, List.Pairwise.nil⟩

theorem Dated.grows (h : Dated tree ls) (hg : tree.Grows tree') : Dated tree' ls :=
  ⟨fun l hl => ⟨(h.past l hl).1, (h.past l hl).2.trans hg⟩, h.nested⟩

theorem Dated.sublist (h : Dated tree ls) (hs : ls'.Sublist ls) : Dated tree ls' :=
  ⟨fun l hl => h.past l (hs.subset hl), h.nested.sublist hs⟩

theorem Dated.enter (h : Dated tree ls) (ht : tree.Targeted) (key : Nat) (types : List TypeId) :
    Dated tree (⟨key, tree, types⟩ :: ls) where
  past := List.forall_mem_cons.2 ⟨⟨ht, .refl tree⟩, h.past⟩
  nested := List.pairwise_cons.2 ⟨fun l hl => (h.past l hl).2, h.nested⟩

theorem Dated.outer (h : Dated tree (l :: ls)) : Dated l.tree ls := by
  obtain ⟨hall, hnested⟩ := List.pairwise_cons.1 h.nested
  exact ⟨fun x hx => ⟨(h.past x (List.mem_cons_of_mem _ hx)).1, hall x hx⟩, hnested⟩

theorem registered_of_offers {name : String} {e : Candidate} (ht : l.tree.Targeted)
    (he : e ∈ l.offers name) : l.tree.registered e.target = true := by
  obtain ⟨m, hm, rfl⟩ := List.mem_map.1 he
  obtain ⟨ty, -, hm⟩ := List.mem_flatMap.1 (List.mem_filter.1 hm).1
  obtain ⟨u, -, hm⟩ := List.mem_flatMap.1 hm
  exact ht u m hm

theorem ranking_offers {added es offers : List Candidate} (h : tree.Ranking added es)
    (hr : ∀ e ∈ offers, tree.registered e.target = true) :
    tree.Ranking (added ++ offers) (offers.foldl (fun es m => tree.insert m es) es) := by
  induction offers generalizing added es with
  | nil =>
    rw [List.append_nil]
    exact h
  | cons e offers ih =>
    obtain ⟨he, hrest⟩ := List.forall_mem_cons.1 hr
    rw [List.foldl_cons, List.append_cons]
    exact ih (h.insert fun _ _ => Or.inr he) hrest

/-- The candidates of nested scopes are a ranking of what the scopes registered. -/
theorem ranking_reference (h : Dated tree ls) (name : String) :
    tree.Ranking (registrations name ls) (reference name ls) := by
  induction ls generalizing tree with
  | nil => exact TypeTree.ranking_nil tree
  | cons l outer ih =>
    obtain ⟨ht, hg⟩ := h.past l List.mem_cons_self
    exact (ranking_offers (ih h.outer) fun e he => registered_of_offers ht he).grows hg

end Laying

namespace Arena

variable {a : Arena} {ls : Nat → List Laying} {t u : Nat} {act : Act}

theorem tree_step (ha : a.Sound a.frames) (hp : a.Permits t act) :
    a.catalog.tree.Grows (a.step t act).2.catalog.tree ∧
      (a.catalog.tree.Targeted → (a.step t act).2.catalog.tree.Targeted) := by
  have hsame : ∀ {tree : TypeTree}, tree = a.catalog.tree →
      a.catalog.tree.Grows tree ∧ (a.catalog.tree.Targeted → tree.Targeted) := by
    rintro tree rfl
    exact ⟨.refl _, fun ht => ht⟩
  cases hg : act.governs with
  | false => exact hsame (congrArg Catalog.tree ((step_spec ha hp).settled hg).catalog)
  | true =>
    have hw : (a.withThread t).catalog.tree = a.catalog.tree := by rw [catalog_withThread]
    cases act with
    | register name parent =>
      rw [← hw]
      exact TypeTree.tree_registerReporting _ _ name parent _
    | declare on d =>
      rw [← hw]
      exact TypeTree.tree_declareReporting _ _ on d _
    | setFault q ty on => exact hsame hw
    | createRealm key o =>
      exact hsame ((congrArg Catalog.tree (catalog_createRealm o)).trans hw)
    | destroyRealm key => exact hsame ((congrArg Catalog.tree catalog_destroyRealm).trans hw)
    | _ => simp [Act.governs] at hg

structure Dated (a : Arena) (ls : Nat → List Laying) : Prop where
  targeted : a.catalog.tree.Targeted
  layings : ∀ t, Laying.Dated a.catalog.tree (ls t)

theorem dated_new (v : Option Log.Verbosity) : (Arena.new v).Dated fun _ => [] :=
  ⟨TypeTree.targeted_new, fun _ => Laying.dated_nil _⟩

theorem dated_record (hd : a.Dated ls) (t : Nat) (act : Act) :
    Laying.Dated a.catalog.tree (a.record t act (ls t)) := by
  unfold record recorded
  split
  · exact (hd.layings t).enter hd.targeted _ _
  · exact (hd.layings t).sublist (List.drop_sublist _ _)

theorem dated_step (ha : a.Sound a.frames) (hd : a.Dated ls) (hp : a.Permits t act) :
    (a.step t act).2.Dated (Function.update ls t (a.record t act (ls t))) := by
  obtain ⟨hg, ht⟩ := tree_step ha hp
  refine ⟨ht hd.targeted, fun u => ?_⟩
  by_cases hu : u = t
  · subst hu
    rw [Function.update_self]
    exact (dated_record hd u act).grows hg
  · rw [Function.update_of_ne hu]
    exact (hd.layings u).grows hg

theorem dated_run {acts : List (Nat × Act)} (ha : a.Sound a.frames) (hd : a.Dated ls)
    (hl : a.Lawful acts) : (a.run acts).Dated (a.layings ls acts) := by
  induction acts generalizing a ls with
  | nil => exact hd
  | cons p acts ih => exact ih (step_spec ha hl.1).sound (dated_step ha hd hl.1) hl.2

end Arena

end ScopedMethods

import Mathlib.Logic.Function.Basic
import ScopedMethods.Proofs.Offering

/-!
# The plan of a laying

What is asked, announced and offered when types are laid is fixed by the tree
beforehand. Laying carries the plan out until a query fails; the queries are
those of the plan and of the searches for the candidates' places.
-/

set_option autoImplicit false

namespace ScopedMethods

inductive Task where
  | ask (query : Query) (type : TypeId)
  | announce (type : TypeId) (ancestors : Nat)
  | offer (m : Method)

def Task.method? : Task → Option Method
  | offer m => some m
  | _ => none

namespace TypeTree

def offered (tree : TypeTree) (ty : TypeId) : List Method :=
  (tree.line ty).flatMap tree.methodsOf

def laid (tree : TypeTree) (types : List TypeId) : List Method :=
  types.flatMap tree.offered

def asking (qs : List (Query × TypeId)) : List Task := qs.map fun q => .ask q.1 q.2

def offering (tree : TypeTree) (line : List TypeId) : List Task :=
  line.flatMap fun u => .ask .methods u :: (tree.methodsOf u).map .offer

def laying (tree : TypeTree) (ty : TypeId) : List Task :=
  asking (tree.walk ty) ++ .announce ty (tree.line ty).length :: tree.offering (tree.line ty)

def plan (tree : TypeTree) (types : List TypeId) : List Task := types.flatMap tree.laying

theorem methods_offering (tree : TypeTree) (line : List TypeId) :
    (tree.offering line).filterMap Task.method? = line.flatMap tree.methodsOf := by
  induction line with
  | nil => rfl
  | cons u line ih =>
    have hm : (tree.methodsOf u).filterMap (Task.method? ∘ Task.offer) = tree.methodsOf u := by
      rw [show Task.method? ∘ Task.offer = some from rfl, List.filterMap_some]
    have ih' : (line.flatMap
        fun u => Task.ask .methods u :: (tree.methodsOf u).map .offer).filterMap
        Task.method? = line.flatMap tree.methodsOf := ih
    simp only [offering, List.flatMap_cons, List.cons_append, List.filterMap_cons, Task.method?,
      List.filterMap_append, List.filterMap_map, hm, ih']

theorem methods_laying (tree : TypeTree) (ty : TypeId) :
    (tree.laying ty).filterMap Task.method? = tree.offered ty := by
  have ha : (asking (tree.walk ty)).filterMap Task.method? = [] := by
    simp [asking, Task.method?]
  rw [laying, List.filterMap_append, ha, List.nil_append, List.filterMap_cons]
  exact methods_offering tree _

theorem methods_plan (tree : TypeTree) (types : List TypeId) :
    (tree.plan types).filterMap Task.method? = tree.laid types := by
  induction types with
  | nil => rfl
  | cons ty types ih =>
    rw [plan, List.flatMap_cons, List.filterMap_append, methods_laying, laid, List.flatMap_cons]
    exact congrArg _ ih

/-- All queries of a plan, given the candidates in effect for each name and
whether types are announced. -/
def queries (tree : TypeTree) (traced : Bool) :
    List Task → (String → List Candidate) → List (Query × TypeId)
  | [], _ => []
  | .ask q ty :: ts, es => (q, ty) :: tree.queries traced ts es
  | .announce ty _ :: ts, es =>
    (if traced then [(.name, ty)] else []) ++ tree.queries traced ts es
  | .offer m :: ts, es =>
    tree.placing (.ofMethod m) (es m.name) ++ tree.queries traced ts
      (Function.update es m.name (tree.insert (.ofMethod m) (es m.name)))

end TypeTree

namespace Site

def carry (c : Catalog) (t : Caller) : List Task → Site → Outcome Site Unit
  | [], w => (.ok (), w)
  | .ask q ty :: ts, w =>
    match c.info q ty with
    | .error f => (.error f, w)
    | .ok _ => carry c t ts w
  | .announce ty n :: ts, w =>
    match w.announce c t ty n with
    | (.error f, w) => (.error f, w)
    | (.ok (), w) => carry c t ts w
  | .offer m :: ts, w =>
    match w.offer c t m with
    | (.error f, w) => (.error f, w)
    | (.ok (), w) => carry c t ts w

variable (c : Catalog) (t : Caller)

theorem carry_append (ts us : List Task) (w : Site) :
    w.carry c t (ts ++ us) =
      match w.carry c t ts with
      | (.error f, w) => (.error f, w)
      | (.ok (), w) => w.carry c t us := by
  induction ts generalizing w with
  | nil => rfl
  | cons task ts ih =>
    cases task with
    | ask q ty =>
      simp only [List.cons_append, carry]
      cases c.info q ty with
      | error f => rfl
      | ok i => exact ih w
    | announce ty n =>
      simp only [List.cons_append, carry]
      obtain ⟨r, w₁⟩ := w.announce c t ty n
      cases r with
      | error f => rfl
      | ok u => exact ih w₁
    | offer m =>
      simp only [List.cons_append, carry]
      obtain ⟨r, w₁⟩ := w.offer c t m
      cases r with
      | error f => rfl
      | ok u => exact ih w₁

theorem carry_asking (qs : List (Query × TypeId)) (ts : List Task) (w : Site) :
    w.carry c t (TypeTree.asking qs ++ ts) =
      match c.answered qs () with
      | .error f => (.error f, w)
      | .ok _ => w.carry c t ts := by
  induction qs with
  | nil => rfl
  | cons q qs ih =>
    rw [Catalog.answered_cons]
    simp only [TypeTree.asking, List.map_cons, List.cons_append, carry]
    cases c.info q.1 q.2 with
    | error f => rfl
    | ok i => exact ih

theorem offerAll_eq_carry (ms : List Method) (w : Site) :
    w.offerAll c t ms = w.carry c t (ms.map .offer) := by
  induction ms generalizing w with
  | nil => rfl
  | cons m ms ih =>
    simp only [offerAll, List.map_cons, carry]
    obtain ⟨r, w₁⟩ := w.offer c t m
    cases r with
    | error f => rfl
    | ok u => exact ih w₁

theorem offerTypes_eq_carry (line : List TypeId) (w : Site) :
    w.offerTypes c t line = w.carry c t (c.tree.offering line) := by
  induction line generalizing w with
  | nil => rfl
  | cons u line ih =>
    have hc : c.tree.offering (u :: line) =
        .ask .methods u :: ((c.tree.methodsOf u).map .offer ++ c.tree.offering line) := rfl
    rw [hc, offerTypes, carry, Catalog.methods_eq, Catalog.answered_cons]
    cases c.info .methods u with
    | error f => rfl
    | ok i =>
      simp only [Catalog.answered_nil]
      rw [carry_append, offerAll_eq_carry]
      obtain ⟨r, w₁⟩ := w.carry c t ((c.tree.methodsOf u).map .offer)
      cases r with
      | error f => rfl
      | ok _ => exact ih w₁

theorem lay_eq_carry (ty : TypeId) (w : Site) :
    w.lay c t ty = w.carry c t (c.tree.laying ty) := by
  have hq : c.answered (c.tree.walk ty) () =
      (c.answered (c.tree.walk ty) (c.tree.line ty)).map fun _ => () :=
    (Catalog.answered_map c _ (c.tree.line ty) fun _ => ()).symm
  rw [lay, TypeTree.laying, carry_asking, hq, Catalog.ancestry_eq]
  cases h : c.answered (c.tree.walk ty) (c.tree.line ty) with
  | error f => rfl
  | ok line =>
    obtain rfl := ((Catalog.answered_ok_iff c _ _ _).1 h).2
    simp only [Except.map, carry]
    obtain ⟨r, w₁⟩ := w.announce c t ty (c.tree.line ty).length
    cases r with
    | error f => rfl
    | ok u => exact offerTypes_eq_carry c t _ w₁

theorem layAll_eq_carry (types : List TypeId) (w : Site) :
    w.layAll c t types = w.carry c t (c.tree.plan types) := by
  induction types generalizing w with
  | nil => rfl
  | cons ty types ih =>
    have hp : c.tree.plan (ty :: types) = c.tree.laying ty ++ c.tree.plan types := rfl
    rw [layAll, hp, carry_append, lay_eq_carry]
    obtain ⟨r, w₁⟩ := w.carry c t (c.tree.laying ty)
    cases r with
    | error f => rfl
    | ok _ => exact ih w₁

def traced (w : Site) : Bool := w.store.journal.admits .trace (some .scopes)

theorem admits_congr {j j' : Journal} (h : j'.verbosity = j.verbosity) (s : Log.Severity)
    (k : Option Log.Component) : j'.admits s k = j.admits s k := by
  unfold Journal.admits
  rw [h]

variable {w : Site}

theorem announce_spec (ty : TypeId) (n : Nat) (hw : w.Sound) :
    w.Advance (w.announce c t ty n).2 ∧
      (w.announce c t ty n).1 = c.answered (if w.traced then [(.name, ty)] else []) () ∧
      (w.announce c t ty n).2.lineage = w.lineage := by
  unfold announce traced
  split
  · rw [Catalog.answered_cons, Catalog.typeName]
    cases c.info .name ty with
    | error f => exact ⟨Advance.refl hw, rfl, rfl⟩
    | ok i => exact ⟨(Advance.refl hw).note t _, rfl, rfl⟩
  · exact ⟨Advance.refl hw, rfl, rfl⟩

def grown (tree : TypeTree) (level : Level) (ms : List Method) (name : String) (l : Ladder) :
    Ladder :=
  (ms.filter (·.name = name)).foldl (fun l m => l.add tree level (.ofMethod m)) l

theorem grown_cons (tree : TypeTree) (level : Level) (m : Method) (ms : List Method)
    (name : String) (l : Ladder) :
    grown tree level (m :: ms) name l = grown tree level ms name
      (if m.name = name then l.add tree level (.ofMethod m) else l) := by
  by_cases h : m.name = name <;> simp [grown, h]

theorem entries_offered {tree : TypeTree} {m : Method} {w₁ : Site}
    (hd : ∀ n, w₁.ladder n =
      if m.name = n then (w.ladder n).add tree w.stack.level (.ofMethod m) else w.ladder n) :
    w₁.entries =
      Function.update w.entries m.name (tree.insert (.ofMethod m) (w.entries m.name)) := by
  have hentries : ∀ (x : Site) n, x.entries n = (x.ladder n).entries := fun x n =>
    (Lineage.entries_ladder (x.lineage n)).symm
  funext n
  rw [hentries, hd n]
  by_cases hne : m.name = n
  · subst hne
    rw [if_pos rfl, Ladder.entries_add, Function.update_self, hentries]
  · rw [if_neg hne, Function.update_of_ne (Ne.symm hne), hentries]

/-- Carrying tasks out: what it does to the stack, which queries decide the
outcome, and the lineages after success. -/
structure Carried (c : Catalog) (tasks : List Task) (w : Site) (o : Outcome Site Unit) : Prop where
  advance : w.Advance o.2
  result : o.1 = c.answered (c.tree.queries w.traced tasks w.entries) ()
  ladder : o.1 = .ok () → ∀ name, o.2.ladder name =
    grown c.tree w.stack.level (tasks.filterMap Task.method?) name (w.ladder name)

theorem carried_announce {ty : TypeId} {n : Nat} {tasks : List Task} {w₁ : Site}
    {o : Outcome Site Unit} (ha : w.Advance w₁) (hl : w₁.lineage = w.lineage)
    (hr : .ok () = c.answered (if w.traced then [(.name, ty)] else []) ())
    (ho : Carried c tasks w₁ o) : Carried c (.announce ty n :: tasks) w o where
  advance := ha.trans ho.advance
  result := by
    have ht : w₁.traced = w.traced := admits_congr ha.verbosity _ _
    have he : w₁.entries = w.entries :=
      funext fun name => congrArg Lineage.entries (congrFun hl name)
    rw [TypeTree.queries, Catalog.answered_append c _ _ (), ← hr, ho.result, ht, he]
  ladder := by
    intro h name
    have hd : w₁.ladder name = w.ladder name := congrArg Lineage.ladder (congrFun hl name)
    rw [ho.ladder h name, ha.level, hd]
    rfl

theorem carried_offer {m : Method} {tasks : List Task} {w₁ : Site} {o : Outcome Site Unit}
    (ha : w.Advance w₁)
    (hd : ∀ n, w₁.ladder n =
      if m.name = n then (w.ladder n).add c.tree w.stack.level (.ofMethod m) else w.ladder n)
    (hr : .ok () = c.answered (c.tree.placing (.ofMethod m) (w.entries m.name)) ())
    (ho : Carried c tasks w₁ o) : Carried c (.offer m :: tasks) w o where
  advance := ha.trans ho.advance
  result := by
    have ht : w₁.traced = w.traced := admits_congr ha.verbosity _ _
    rw [TypeTree.queries, Catalog.answered_append c _ _ (), ← hr, ho.result, ht,
      entries_offered hd]
  ladder := by
    intro h name
    have hm : (Task.offer m :: tasks).filterMap Task.method? =
        m :: tasks.filterMap Task.method? := rfl
    rw [ho.ladder h name, ha.level, hd, hm, grown_cons]

theorem carry_spec (tasks : List Task) (hw : w.Sound) (h0 : 0 < w.stack.level.toNat) :
    Carried c tasks w (w.carry c t tasks) := by
  -- For all sites: which queries a later offer asks depends on the candidates by then.
  induction tasks generalizing w with
  | nil => exact ⟨Advance.refl hw, rfl, fun _ _ => rfl⟩
  | cons task tasks ih =>
    cases task with
    | ask q ty =>
      have hq : c.answered (c.tree.queries w.traced (.ask q ty :: tasks) w.entries) () =
          match c.info q ty with
          | .error f => .error f
          | .ok _ => c.answered (c.tree.queries w.traced tasks w.entries) () :=
        Catalog.answered_cons c q ty _ ()
      rw [carry]
      cases hi : c.info q ty with
      | error f =>
        rw [hi] at hq
        exact ⟨Advance.refl hw, hq.symm, fun h => by cases h⟩
      | ok i =>
        rw [hi] at hq
        obtain ⟨ha, hr, hl⟩ := ih hw h0
        exact ⟨ha, hr.trans hq.symm, hl⟩
    | announce ty n =>
      obtain ⟨ha, hr, hl⟩ := announce_spec c t ty n hw
      rw [carry]
      generalize w.announce c t ty n = o at ha hr hl ⊢
      obtain ⟨r, w₁⟩ := o
      cases r with
      | error f =>
        refine ⟨ha, ?_, fun h => by cases h⟩
        rw [TypeTree.queries, Catalog.answered_append c _ _ (), ← hr]
      | ok u => exact carried_announce c ha hl hr (ih ha.sound (by rw [ha.level]; exact h0))
    | offer m =>
      obtain ⟨ha, hr, hl⟩ := offer_spec c t m hw h0
      rw [carry]
      generalize w.offer c t m = o at ha hr hl ⊢
      obtain ⟨r, w₁⟩ := o
      cases r with
      | error f =>
        refine ⟨ha, ?_, fun h => by cases h⟩
        rw [TypeTree.queries, Catalog.answered_append c _ _ (), ← hr]
      | ok u => exact carried_offer c ha (hl rfl) hr (ih ha.sound (by rw [ha.level]; exact h0))

end Site

end ScopedMethods

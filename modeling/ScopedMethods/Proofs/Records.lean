import Mathlib.Data.List.Nodup
import ScopedMethods.Proofs.Calls
import ScopedMethods.Proofs.Queries
import ScopedMethods.Proofs.Registrations

/-!
# A tree and the record of calls on it

A tree is told by the calls on it that were accepted, in whatever form they were
made and whatever was refused in between. The accepted registrations number the
types and name them, and the accepted declarations make the methods of each type.
-/

set_option autoImplicit false

namespace ScopedMethods

def MethodDecl.target? (d : MethodDecl) : Option TypeId :=
  if d.isPublic && d.isStatic then d.params.head? else none

namespace Registry

inductive Call where
  | register (caller : Caller) (name : String) (parent : TypeId) (place : CodePlace)
  | declare (caller : Caller) (on : TypeId) (decl : MethodDecl) (place : CodePlace)

inductive Entry where
  | registered (name : String) (parent : TypeId) (delivery : Delivery TypeId)
  | declared (on : TypeId) (decl : MethodDecl) (delivery : Delivery Unit)

def new (s : Store) : Registry := ⟨TypeTree.new, s⟩

def step (g : Registry) : Call → Entry × Registry
  | .register c name parent place =>
    let (delivery, g) := inForm (register c name parent) place g
    (.registered name parent delivery, g)
  | .declare c on d place =>
    let (delivery, g) := inForm (declare c on d) place g
    (.declared on d delivery, g)

def run (g : Registry) : List Call → List Entry × Registry
  | [] => ([], g)
  | call :: calls =>
    let (e, g) := g.step call
    let (es, g) := g.run calls
    (e :: es, g)

/-- A type as its registration tells of it. -/
structure Birth where
  name : String
  parent : TypeId
  id : TypeId

structure Offer where
  on : TypeId
  decl : MethodDecl
  target : TypeId

def Entry.birth? : Entry → Option Birth
  | .registered name parent delivery => delivery.accepted?.map fun id => ⟨name, parent, id⟩
  | .declared _ _ _ => none

def Entry.offer? : Entry → Option Offer
  | .registered _ _ _ => none
  | .declared on d delivery =>
    delivery.accepted?.bind fun _ => d.target?.map fun target => ⟨on, d, target⟩

def births (past : List Entry) : List Birth := past.filterMap Entry.birth?

def offers (past : List Entry) : List Offer := past.filterMap Entry.offer?

def names (past : List Entry) : List (String × TypeId) :=
  (TypeTree.rootName, TypeTree.root) :: (births past).map fun b => (b.name, b.id)

def Offer.method (o : Offer) (n : Nat) : Method :=
  ⟨.declared n, o.decl.name, o.on, o.target, o.decl.body⟩

def made (past : List Entry) : List Method :=
  (offers past).zipIdx.map fun p => p.1.method p.2

variable {g : Registry} {past : List Entry} {tree tree' : TypeTree} {e : Entry} {t : TypeId}
  {name : String}

theorem births_snoc (past : List Entry) (e : Entry) :
    births (past ++ [e]) = births past ++ e.birth?.toList := by
  rw [births, List.filterMap_append, births]
  cases h : e.birth? <;> simp [h]

theorem offers_snoc (past : List Entry) (e : Entry) :
    offers (past ++ [e]) = offers past ++ e.offer?.toList := by
  rw [offers, List.filterMap_append, offers]
  cases h : e.offer? <;> simp [h]

theorem names_snoc (past : List Entry) (e : Entry) :
    names (past ++ [e]) = names past ++ (e.birth?.map fun b => (b.name, b.id)).toList := by
  rw [names, births_snoc, List.map_append, names]
  cases e.birth? <;> rfl

theorem made_snoc (past : List Entry) (e : Entry) :
    made (past ++ [e]) = made past ++ (e.offer?.map (·.method (made past).length)).toList := by
  have hlen : (made past).length = (offers past).length := by simp [made]
  rw [hlen, made, offers_snoc, List.zipIdx_append, List.map_append, made]
  cases e.offer? <;> simp

theorem declaring_of_mem_made {m : Method} (h : m ∈ made past) :
    ∃ o ∈ offers past, m.declaring = o.on := by
  obtain ⟨p, hp, rfl⟩ := List.mem_map.1 h
  exact ⟨p.1, (List.mem_zipIdx' hp).2 ▸ List.getElem_mem _, rfl⟩

/-- How a tree stands to the calls that were made on it. -/
structure Tells (past : List Entry) (tree : TypeTree) : Prop where
  root : ∃ i, tree.info? TypeTree.root = some i ∧ i.name = TypeTree.rootName ∧ i.parent = none
  births : ∀ b ∈ births past, ∃ i, tree.info? b.id = some i ∧ i.name = b.name ∧
    i.parent = some b.parent
  numbers : (names past).map (fun p => p.2.number) = List.range tree.size
  distinct : ((names past).map Prod.fst).Nodup
  count : tree.methodCount = (made past).length
  methods : ∀ {t i}, tree.info? t = some i → i.methods = (made past).filter (·.declaring = t)
  offers : ∀ o ∈ offers past, o.decl.name ≠ "" ∧ tree.registered o.on = true ∧
    tree.registered o.target = true

namespace Tells

theorem mem_names_of_info? (h : Tells past tree) {i : TypeInfo} (hi : tree.info? t = some i) :
    (i.name, t) ∈ names past := by
  have hlt : t.number < tree.size :=
    of_decide_eq_true (TypeTree.registered_iff.2 ⟨i, hi⟩ : tree.registered t = true)
  have hmem : t.number ∈ (names past).map (fun p => p.2.number) := by
    rw [h.numbers]
    exact List.mem_range.2 hlt
  obtain ⟨⟨name, u⟩, hp, hn⟩ := List.mem_map.1 hmem
  obtain rfl : u = t := by cases u; cases t; simp_all
  suffices hname : i.name = name by rwa [hname]
  rcases List.mem_cons.1 hp with he | hp
  · cases he
    obtain ⟨j, hj, hname, -⟩ := h.root
    cases hi.symm.trans hj
    exact hname
  · obtain ⟨b, hb, he⟩ := List.mem_map.1 hp
    cases he
    obtain ⟨j, hj, hname, -⟩ := h.births b hb
    cases hi.symm.trans hj
    exact hname

theorem mem_names_iff (h : Tells past tree) :
    (name, t) ∈ names past ↔ ∃ i, tree.info? t = some i ∧ i.name = name := by
  constructor
  · intro hp
    rcases List.mem_cons.1 hp with he | hp
    · cases he
      obtain ⟨i, hi, hname, -⟩ := h.root
      exact ⟨i, hi, hname⟩
    · obtain ⟨b, hb, he⟩ := List.mem_map.1 hp
      cases he
      obtain ⟨i, hi, hname, -⟩ := h.births b hb
      exact ⟨i, hi, hname⟩
  · rintro ⟨i, hi, rfl⟩
    exact h.mem_names_of_info? hi

theorem taken_iff (h : Tells past tree) :
    tree.Taken name ↔ name ∈ (names past).map Prod.fst := by
  constructor
  · rintro ⟨t, i, hi, rfl⟩
    exact List.mem_map.2 ⟨_, h.mem_names_of_info? hi, rfl⟩
  · intro hn
    obtain ⟨⟨name, t⟩, hp, rfl⟩ := List.mem_map.1 hn
    exact ⟨t, h.mem_names_iff.1 hp⟩

theorem find?_eq_some_iff (h : Tells past tree) :
    tree.find? name = some t ↔ (name, t) ∈ names past :=
  TypeTree.find?_eq_some_iff.trans h.mem_names_iff.symm

theorem refused (h : Tells past tree) (hb : e.birth? = none) (ho : e.offer? = none) :
    Tells (past ++ [e]) tree := by
  have hbirths : Registry.births (past ++ [e]) = Registry.births past := by
    rw [births_snoc, hb]
    exact List.append_nil _
  have hoffers : Registry.offers (past ++ [e]) = Registry.offers past := by
    rw [offers_snoc, ho]
    exact List.append_nil _
  have hnames : names (past ++ [e]) = names past := by rw [names, hbirths, names]
  have hmade : made (past ++ [e]) = made past := by rw [made, hoffers, made]
  constructor
  · exact h.root
  · rw [hbirths]
    exact h.births
  · rw [hnames]
    exact h.numbers
  · rw [hnames]
    exact h.distinct
  · rw [hmade]
    exact h.count
  · rw [hmade]
    exact h.methods
  · rw [hoffers]
    exact h.offers

theorem kept (h : Tells past tree) (hg : tree.Grows tree') :
    (∃ i, tree'.info? TypeTree.root = some i ∧ i.name = TypeTree.rootName ∧ i.parent = none) ∧
      ∀ b ∈ Registry.births past, ∃ i, tree'.info? b.id = some i ∧ i.name = b.name ∧
        i.parent = some b.parent := by
  constructor
  · obtain ⟨i, hi, hname, hparent⟩ := h.root
    obtain ⟨j, hj, hij⟩ := hg.kept hi
    exact ⟨j, hj, hij.name.trans hname, hij.parent.trans hparent⟩
  · intro b hb
    obtain ⟨i, hi, hname, hparent⟩ := h.births b hb
    obtain ⟨j, hj, hij⟩ := hg.kept hi
    exact ⟨j, hj, hij.name.trans hname, hij.parent.trans hparent⟩

theorem methods_push {parent : TypeId} (h : Tells past tree)
    (htypes : tree'.types = tree.types.push ⟨name, some parent, [], 0⟩) {i : TypeInfo}
    (hi : tree'.info? t = some i) : i.methods = (made past).filter (·.declaring = t) := by
  rw [TypeTree.info?_of_push htypes] at hi
  by_cases ht : t.number = tree.size
  · rw [if_pos ht] at hi
    cases hi
    symm
    apply List.filter_eq_nil_iff.2
    intro m hm hdeclaring
    obtain ⟨o, homem, hon⟩ := declaring_of_mem_made hm
    have hlt : o.on.number < tree.size := of_decide_eq_true (h.offers o homem).2.1
    rw [← hon, of_decide_eq_true hdeclaring] at hlt
    omega
  · rw [if_neg ht] at hi
    exact h.methods hi

theorem registered {parent id : TypeId} (h : Tells past tree)
    (hr : tree.register name parent = .ok (id, tree')) (hb : e.birth? = some ⟨name, parent, id⟩)
    (ho : e.offer? = none) : Tells (past ++ [e]) tree' := by
  have hg := TypeTree.grows_register hr
  have hcase := TypeTree.registering tree name parent
  rw [hr] at hcase
  cases hcase with
  | added hparent hname _ htypes hcount =>
    have hbirths : Registry.births (past ++ [e]) =
        Registry.births past ++ [⟨name, parent, ⟨tree.size⟩⟩] := by
      rw [births_snoc, hb]
      rfl
    have hoffers : Registry.offers (past ++ [e]) = Registry.offers past := by
      rw [offers_snoc, ho]
      exact List.append_nil _
    have hnames : names (past ++ [e]) = names past ++ [(name, ⟨tree.size⟩)] := by
      rw [names_snoc, hb]
      rfl
    have hmade : made (past ++ [e]) = made past := by rw [made, hoffers, made]
    obtain ⟨hroot, hold⟩ := h.kept hg
    constructor
    · exact hroot
    · rw [hbirths]
      intro b hmem
      rcases List.mem_append.1 hmem with hmem | hmem
      · exact hold b hmem
      · obtain rfl := List.mem_singleton.1 hmem
        exact ⟨_, (TypeTree.info?_of_push htypes _).trans (if_pos rfl), rfl, rfl⟩
    · rw [hnames, List.map_append, h.numbers, TypeTree.size_of_push htypes, List.range_succ]
      rfl
    · rw [hnames, List.map_append, List.nodup_append]
      refine ⟨h.distinct, List.nodup_singleton _, ?_⟩
      intro a ha b hmem hab
      obtain rfl := List.mem_singleton.1 hmem
      exact hname (h.taken_iff.2 (hab ▸ ha))
    · rw [hmade, hcount]
      exact h.count
    · rw [hmade]
      exact h.methods_push htypes
    · rw [hoffers]
      intro o homem
      obtain ⟨hne, hon, htarget⟩ := h.offers o homem
      exact ⟨hne, hg.registered hon, hg.registered htarget⟩

theorem methodOf_eq (tree : TypeTree) (on : TypeId) (d : MethodDecl) :
    tree.methodOf on d =
      d.target?.map fun target => Offer.method ⟨on, d, target⟩ tree.methodCount := by
  unfold TypeTree.methodOf MethodDecl.target? MethodDecl.eligible
  cases d.params with
  | nil => cases d.isPublic && d.isStatic <;> rfl
  | cons target rest => cases d.isPublic <;> cases d.isStatic <;> rfl

theorem mem_params_of_target? {d : MethodDecl} (h : d.target? = some t) : t ∈ d.params := by
  unfold MethodDecl.target? at h
  split at h
  · exact List.mem_of_mem_head? h
  · cases h

theorem methods_updateMethods {on : TypeId} {d : MethodDecl} (h : Tells past tree) {i : TypeInfo}
    (hi : (tree.updateMethods on (tree.methodOf on d)).info? t = some i) :
    i.methods = (made past ++ (tree.methodOf on d).toList).filter (·.declaring = t) := by
  have hof : ∀ m ∈ (tree.methodOf on d).toList, m.declaring = on := by
    intro m hm
    rw [methodOf_eq] at hm
    obtain ⟨target, -, rfl⟩ := Option.map_eq_some_iff.1 (Option.mem_toList.1 hm)
    rfl
  rw [TypeTree.info?_updateMethods] at hi
  obtain ⟨j, hj, rfl⟩ := Option.map_eq_some_iff.1 hi
  rw [List.filter_append, ← h.methods hj]
  by_cases ht : on = t
  · have hall : (tree.methodOf on d).toList.filter (·.declaring = t) =
        (tree.methodOf on d).toList :=
      List.filter_eq_self.2 fun m hm => decide_eq_true ((hof m hm).trans ht)
    rw [if_pos ht, hall]
    rfl
  · have hnone : (tree.methodOf on d).toList.filter (·.declaring = t) = [] := by
      apply List.filter_eq_nil_iff.2
      intro m hm hdeclaring
      exact ht ((hof m hm).symm.trans (of_decide_eq_true hdeclaring))
    rw [if_neg ht, hnone, List.append_nil]

theorem declared {on : TypeId} {d : MethodDecl} (h : Tells past tree)
    (hd : tree.declare on d = .ok tree') (hb : e.birth? = none)
    (ho : e.offer? = d.target?.map fun target => ⟨on, d, target⟩) : Tells (past ++ [e]) tree' := by
  have hg := TypeTree.grows_declare hd
  have hcase := TypeTree.declaring tree on d
  rw [hd] at hcase
  cases hcase with
  | added hname hon hparams =>
    have hbirths : Registry.births (past ++ [e]) = Registry.births past := by
      rw [births_snoc, hb]
      exact List.append_nil _
    have hnames : names (past ++ [e]) = names past := by rw [names, hbirths, names]
    have hmade : made (past ++ [e]) = made past ++ (tree.methodOf on d).toList := by
      rw [made_snoc, ho, methodOf_eq, h.count, Option.map_map]
      rfl
    obtain ⟨hroot, hold⟩ := h.kept hg
    constructor
    · exact hroot
    · rw [hbirths]
      exact hold
    · rw [hnames, h.numbers, TypeTree.size, TypeTree.size, TypeTree.updateMethods,
        Array.size_modify]
    · rw [hnames]
      exact h.distinct
    · rw [hmade, List.length_append, ← h.count]
      rfl
    · rw [hmade]
      exact h.methods_updateMethods
    · rw [offers_snoc, ho]
      intro o hmem
      rcases List.mem_append.1 hmem with hmem | hmem
      · obtain ⟨hne, hon, htarget⟩ := h.offers o hmem
        exact ⟨hne, hg.registered hon, hg.registered htarget⟩
      · obtain ⟨target, htarget, rfl⟩ := Option.map_eq_some_iff.1 (Option.mem_toList.1 hmem)
        have hmem := mem_params_of_target? htarget
        exact ⟨hname, hg.registered hon, hg.registered (hparams _ hmem)⟩

end Tells

theorem tells_new (s : Store) : Tells [] (new s).tree where
  root := ⟨_, rfl, rfl, rfl⟩
  births := fun _ hb => absurd hb List.not_mem_nil
  numbers := rfl
  distinct := List.nodup_singleton _
  count := rfl
  methods := by
    intro t i hi
    have hmem : i ∈ TypeTree.new.types := Array.mem_of_getElem? hi
    obtain rfl : i = ⟨TypeTree.rootName, none, [], 0⟩ := by simpa [TypeTree.new] using hmem
    rfl
  offers := fun _ ho => absurd ho List.not_mem_nil

theorem tells_step (h : Tells past g.tree) (call : Call) :
    Tells (past ++ [(g.step call).1]) (g.step call).2.tree := by
  cases call with
  | register c name parent place =>
    rw [step]
    cases hr : g.tree.register name parent with
    | error r =>
      have hs := register_error hr c
      rw [hs.state]
      apply h.refused
      · rw [Entry.birth?, hs.accepted?]
        rfl
      · rfl
    | ok p =>
      have hs := register_ok hr c
      rw [hs.state]
      apply h.registered hr
      · rw [Entry.birth?, hs.accepted?]
        rfl
      · rfl
  | declare c on d place =>
    rw [step]
    cases hd : g.tree.declare on d with
    | error r =>
      have hs := declare_error hd c
      rw [hs.state]
      apply h.refused
      · rfl
      · rw [Entry.offer?, hs.accepted?]
        rfl
    | ok tree' =>
      have hs := declare_ok hd c
      rw [hs.state, tree_declared]
      apply h.declared hd
      · rfl
      · rw [Entry.offer?, hs.accepted?]
        rfl

theorem tells_run (h : Tells past g.tree) (calls : List Call) :
    Tells (past ++ (g.run calls).1) (g.run calls).2.tree := by
  induction calls generalizing g past with
  | nil =>
    rw [run, List.append_nil]
    exact h
  | cons call calls ih =>
    have hstep := ih (tells_step h call)
    rw [List.append_assoc] at hstep
    exact hstep

/-- What the queries of a tree tell is what the calls on it did. -/
structure Recorded (past : List Entry) (tree : TypeTree) : Prop where
  numbers : (names past).map (fun p => p.2.number) = List.range tree.size
  distinct : ((names past).map Prod.fst).Nodup
  found : ∀ name t, tree.find? name = some t ↔ (name, t) ∈ names past
  unfound : ∀ name, tree.find? name = none ↔ name ∉ (names past).map Prod.fst
  named : ∀ t name, tree.catalog.typeName t = .ok name ↔ (name, t) ∈ names past
  inverse : ∀ name t, tree.find? name = some t ↔ tree.catalog.typeName t = .ok name
  root : ∀ t, tree.catalog.parent t = .ok none ↔ t = TypeTree.root
  below : ∀ t p, tree.catalog.parent t = .ok (some p) ↔
    ∃ b ∈ births past, b.id = t ∧ b.parent = p
  older : ∀ t, tree.registered t = true → t ≠ TypeTree.root → ∃ p,
    tree.catalog.parent t = .ok (some p) ∧ tree.registered p = true ∧ p.number < t.number
  methods : ∀ t, tree.registered t = true →
    tree.catalog.methods t = .ok ((made past).filter (·.declaring = t))
  offered : ∀ o ∈ offers past, o.decl.name ≠ "" ∧ o.decl.isPublic = true ∧
    o.decl.isStatic = true ∧ o.decl.params.head? = some o.target ∧
    tree.registered o.on = true ∧ tree.registered o.target = true

theorem target_of_mem_offers {o : Offer} (h : o ∈ offers past) :
    o.decl.target? = some o.target := by
  obtain ⟨e, -, he⟩ := List.mem_filterMap.1 h
  cases e with
  | registered name parent delivery => cases he
  | declared on d delivery =>
    obtain ⟨u, -, he⟩ := Option.bind_eq_some_iff.1 he
    obtain ⟨target, htarget, rfl⟩ := Option.map_eq_some_iff.1 he
    exact htarget

theorem head?_of_target? {d : MethodDecl} (h : d.target? = some t) :
    d.isPublic = true ∧ d.isStatic = true ∧ d.params.head? = some t := by
  unfold MethodDecl.target? at h
  split at h
  · rename_i hboth
    obtain ⟨hpublic, hstatic⟩ := Bool.and_eq_true_iff.1 hboth
    exact ⟨hpublic, hstatic, h⟩
  · cases h

namespace Tells

theorem birth_of_info? (h : Tells past tree) {i : TypeInfo} (hi : tree.info? t = some i) :
    (t = TypeTree.root ∧ i.parent = none) ∨
      ∃ b ∈ Registry.births past, b.id = t ∧ i.parent = some b.parent := by
  rcases List.mem_cons.1 (h.mem_names_of_info? hi) with he | hp
  · left
    obtain ⟨j, hj, -, hparent⟩ := h.root
    obtain rfl : t = TypeTree.root := congrArg Prod.snd he
    cases hi.symm.trans hj
    exact ⟨rfl, hparent⟩
  · right
    obtain ⟨b, hb, he⟩ := List.mem_map.1 hp
    obtain ⟨j, hj, -, hparent⟩ := h.births b hb
    obtain rfl : b.id = t := congrArg Prod.snd he
    cases hi.symm.trans hj
    exact ⟨b, hb, rfl, hparent⟩

theorem parent_eq_none_iff (h : Tells past tree) :
    tree.catalog.parent t = .ok none ↔ t = TypeTree.root := by
  rw [Catalog.parent, TypeTree.query_eq_ok_iff]
  constructor
  · rintro ⟨i, hi, hnone⟩
    rcases h.birth_of_info? hi with ⟨rfl, -⟩ | ⟨b, -, -, hparent⟩
    · rfl
    · rw [hnone] at hparent
      cases hparent
  · rintro rfl
    obtain ⟨i, hi, -, hparent⟩ := h.root
    exact ⟨i, hi, hparent⟩

theorem parent_eq_some_iff (h : Tells past tree) {p : TypeId} :
    tree.catalog.parent t = .ok (some p) ↔
      ∃ b ∈ Registry.births past, b.id = t ∧ b.parent = p := by
  rw [Catalog.parent, TypeTree.query_eq_ok_iff]
  constructor
  · rintro ⟨i, hi, hsome⟩
    rcases h.birth_of_info? hi with ⟨-, hparent⟩ | ⟨b, hb, hid, hparent⟩
    · rw [hsome] at hparent
      cases hparent
    · exact ⟨b, hb, hid, Option.some.inj (hparent.symm.trans hsome)⟩
  · rintro ⟨b, hb, rfl, rfl⟩
    obtain ⟨i, hi, -, hparent⟩ := h.births b hb
    exact ⟨i, hi, hparent⟩

theorem recorded (h : Tells past tree) : Recorded past tree where
  numbers := h.numbers
  distinct := h.distinct
  found := fun _ _ => h.find?_eq_some_iff
  unfound := by
    intro name
    rw [TypeTree.find?_eq_none_iff, h.taken_iff]
  named := by
    intro t name
    rw [Catalog.typeName, TypeTree.query_eq_ok_iff, h.mem_names_iff]
  inverse := by
    intro name t
    rw [Catalog.typeName, TypeTree.query_eq_ok_iff, TypeTree.find?_eq_some_iff]
  root := fun _ => h.parent_eq_none_iff
  below := fun _ _ => h.parent_eq_some_iff
  older := by
    intro t ht hne
    obtain ⟨i, hi⟩ := TypeTree.registered_iff.1 ht
    rcases h.birth_of_info? hi with ⟨hroot, -⟩ | ⟨b, hb, hid, hparent⟩
    · exact absurd hroot hne
    · have hp : tree.parent? t = some b.parent := by
        rw [TypeTree.parent?, hi]
        exact hparent
      exact ⟨b.parent, h.parent_eq_some_iff.2 ⟨b, hb, hid, rfl⟩,
        (TypeTree.registered_of_parent? hp).2, TypeTree.parent?_lt hp⟩
  methods := by
    intro t ht
    obtain ⟨i, hi⟩ := TypeTree.registered_iff.1 ht
    rw [Catalog.methods, TypeTree.query_of_info? hi, h.methods hi]
  offered := by
    intro o ho
    obtain ⟨hname, hon, htarget⟩ := h.offers o ho
    obtain ⟨hpublic, hstatic, hhead⟩ := head?_of_target? (target_of_mem_offers ho)
    exact ⟨hname, hpublic, hstatic, hhead, hon, htarget⟩

end Tells

theorem grows_step (g : Registry) (call : Call) : g.tree.Grows (g.step call).2.tree := by
  cases call with
  | register c name parent place =>
    obtain ⟨r, g', hs⟩ := register_settles g c name parent
    have hg := (TypeTree.tree_registerReporting g.tree c name parent g.store).1
    rw [TypeTree.registerReporting, hs.reported] at hg
    rw [step, hs.state]
    exact hg
  | declare c on d place =>
    obtain ⟨r, g', hs⟩ := declare_settles g c on d
    have hg := (TypeTree.tree_declareReporting g.tree c on d g.store).1
    rw [TypeTree.declareReporting, hs.reported] at hg
    rw [step, hs.state]
    exact hg

theorem grows_run (g : Registry) (calls : List Call) : g.tree.Grows (g.run calls).2.tree := by
  induction calls generalizing g with
  | nil => exact .refl _
  | cons call calls ih => exact (grows_step g call).trans (ih _)

/-- Whatever calls were made on a tree, its types are numbered and named by the registrations
that were accepted, each below an older one, and the methods of a type are those that it was
told of. What later calls find there stays as it was. -/
theorem tree_recorded (s : Store) (calls later : List Call) :
    let ran := (new s).run calls
    let tree := ran.2.tree
    let tree' := (ran.2.run later).2.tree
    Recorded ran.1 tree ∧
      (∀ t, tree.registered t = true → tree.Outlasted tree' t) ∧
      ∀ name t, tree.find? name = some t → tree'.find? name = some t := by
  intro ran tree tree'
  have h : Tells ran.1 tree := tells_run (tells_new s) calls
  have hg : tree.Grows tree' := grows_run ran.2 later
  have h' : Tells (ran.1 ++ (ran.2.run later).1) tree' := tells_run h later
  refine ⟨h.recorded, fun t ht => hg.outlasted ht, fun name t hf => ?_⟩
  obtain ⟨i, hi, hname⟩ := TypeTree.find?_eq_some_iff.1 hf
  obtain ⟨j, hj, hij⟩ := hg.kept hi
  exact h'.find?_eq_some_iff.2 (h'.mem_names_iff.2 ⟨j, hj, hij.name.trans hname⟩)

def mixed : List Call :=
  [.register ⟨0, ""⟩ "Number" ⟨0⟩ none,
   .register ⟨0, ""⟩ "Number" ⟨0⟩ (some (some .methodNameEmpty)),
   .register ⟨0, ""⟩ "Int" ⟨1⟩ (some (some .nestingTooDeep)),
   .declare ⟨0, ""⟩ ⟨1⟩ ⟨"f", [⟨2⟩, ⟨3⟩], true, true, none⟩ none,
   .declare ⟨0, ""⟩ ⟨1⟩ ⟨"g", [⟨2⟩], true, true, none⟩ none,
   .declare ⟨0, ""⟩ ⟨1⟩ ⟨"h", [⟨2⟩], false, true, none⟩ (some none)]

theorem tree_recorded_mixed :
    let ran := (new (Store.new none)).run mixed
    let tree' := (ran.2.run mixed).2.tree
    names ran.1 = [("Object", ⟨0⟩), ("Number", ⟨1⟩), ("Int", ⟨2⟩)] ∧
      tree'.find? "Int" = some ⟨2⟩ ∧
      ∃ more, tree'.catalog.methods ⟨1⟩ =
        .ok ((made ran.1).filter (·.declaring = ⟨1⟩) ++ more) := by
  have h := tree_recorded (Store.new none) mixed mixed
  have hnames : names ((new (Store.new none)).run mixed).1 =
      [("Object", ⟨0⟩), ("Number", ⟨1⟩), ("Int", ⟨2⟩)] := by decide +kernel
  have hregistered : ((new (Store.new none)).run mixed).2.tree.registered ⟨1⟩ = true := by
    decide +kernel
  -- What the calls came to is known now, and need not be computed again.
  dsimp only at h ⊢
  generalize (new (Store.new none)).run mixed = ran at h hnames hregistered ⊢
  generalize (ran.2.run mixed).2.tree = tree' at h ⊢
  obtain ⟨hrecorded, houtlasted, hfound⟩ := h
  have hmem : ("Int", ⟨2⟩) ∈ names ran.1 := by
    rw [hnames]
    decide
  obtain ⟨more, hmore⟩ := (houtlasted ⟨1⟩ hregistered).methods
  rw [hrecorded.methods ⟨1⟩ hregistered] at hmore
  exact ⟨hnames, hfound "Int" ⟨2⟩ ((hrecorded.found "Int" ⟨2⟩).2 hmem), more, hmore⟩

end Registry

end ScopedMethods

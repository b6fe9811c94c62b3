import ScopedMethods.Proofs.Descent

/-!
# Queries of a tree by itself

Where no fault is set, every query of a registered type is answered from the
tree, and every walk from one comes to its end. From any other type a query, and
so a walk, fails at once.
-/

set_option autoImplicit false

namespace ScopedMethods

namespace TypeTree

abbrev catalog (tree : TypeTree) : Catalog := ⟨tree, []⟩

variable {α : Type} {tree tree' : TypeTree} {t u : TypeId} {i : TypeInfo}

theorem info_eq (tree : TypeTree) (q : Query) (t : TypeId) :
    tree.catalog.info q t =
      (tree.info? t).elim (.error (.code .typeNotRegistered)) .ok := by
  unfold Catalog.info
  cases h : tree.info? t <;> rfl

theorem info?_eq_none (h : tree.registered t = false) : tree.info? t = none := by
  cases hi : tree.info? t with
  | none => rfl
  | some i => simp [registered_iff.2 ⟨i, hi⟩] at h

theorem query_of_info? (h : tree.info? t = some i) (q : Query) (f : TypeInfo → α) :
    (tree.catalog.info q t).map f = .ok (f i) := by
  rw [info_eq, h]
  rfl

theorem query_of_unregistered (h : tree.registered t = false) (q : Query) (f : TypeInfo → α) :
    (tree.catalog.info q t).map f = .error (.code .typeNotRegistered) := by
  rw [info_eq, info?_eq_none h]
  rfl

theorem query_eq_ok_iff {q : Query} {f : TypeInfo → α} {x : α} :
    (tree.catalog.info q t).map f = .ok x ↔ ∃ i, tree.info? t = some i ∧ f i = x := by
  rw [info_eq]
  cases tree.info? t with
  | none => simp [Except.map]
  | some i => simp [Except.map]

theorem answered_of_registered {qs : List (Query × TypeId)}
    (h : ∀ q ∈ qs, tree.registered q.2 = true) (x : α) : tree.catalog.answered qs x = .ok x := by
  refine (Catalog.answered_ok_iff _ _ _ _).2 ⟨List.findSome?_eq_none_iff.2 fun q hq => ?_, rfl⟩
  obtain ⟨i, hi⟩ := registered_iff.1 (h q hq)
  rw [Catalog.ask, info_eq, hi]
  rfl

theorem ancestry_of_registered (ht : tree.registered t = true) :
    tree.catalog.ancestry t = .ok (tree.line t) := by
  rw [Catalog.ancestry_eq]
  apply answered_of_registered
  intro q hq
  obtain ⟨u, hu, rfl⟩ := List.mem_map.1 hq
  rcases List.mem_cons.1 hu with rfl | hu
  · exact ht
  · exact registered_of_ancestor ht hu

theorem descends_of_registered (ht : tree.registered t = true) (a : TypeId) :
    tree.catalog.descends t a = .ok (decide (a ∈ tree.ancestors t)) := by
  rw [Catalog.descends_eq]
  apply answered_of_registered
  intro q hq
  obtain ⟨u, hu, rfl⟩ := List.mem_map.1 hq
  rcases List.mem_cons.1 hu with rfl | hu
  · exact ht
  · exact registered_of_ancestor ht ((List.takeWhile_sublist _).subset hu)

theorem ancestry_of_unregistered (h : tree.registered t = false) :
    tree.catalog.ancestry t = .error (.code .typeNotRegistered) := by
  rw [Catalog.ancestry_eq, walk, List.map_cons]
  exact Catalog.parent_error (query_of_unregistered h .parent TypeInfo.parent) _ _

theorem descends_of_unregistered (h : tree.registered t = false) (a : TypeId) :
    tree.catalog.descends t a = .error (.code .typeNotRegistered) := by
  rw [Catalog.descends_eq, descent, List.map_cons]
  exact Catalog.parent_error (query_of_unregistered h .parent TypeInfo.parent) _ _

/-- What is told of a type stays so while the tree grows, and its methods go on. -/
structure Outlasted (tree tree' : TypeTree) (t : TypeId) : Prop where
  name : tree'.catalog.typeName t = tree.catalog.typeName t
  parent : tree'.catalog.parent t = tree.catalog.parent t
  ancestry : tree'.catalog.ancestry t = tree.catalog.ancestry t
  descends : ∀ u, tree'.catalog.descends t u = tree.catalog.descends t u
  methods : ∃ more, tree'.catalog.methods t = (tree.catalog.methods t).map (· ++ more)

theorem Grows.outlasted (hg : tree.Grows tree') (ht : tree.registered t = true) :
    Outlasted tree tree' t := by
  obtain ⟨i, hi⟩ := registered_iff.1 ht
  obtain ⟨j, hj, hij⟩ := hg.kept hi
  have ht' := hg.registered ht
  constructor
  · rw [Catalog.typeName, query_of_info? hj, Catalog.typeName, query_of_info? hi, hij.name]
  · rw [Catalog.parent, query_of_info? hj, Catalog.parent, query_of_info? hi, hij.parent]
  · rw [ancestry_of_registered ht', ancestry_of_registered ht, line, hg.ancestors ht, line]
  · intro u
    rw [descends_of_registered ht', descends_of_registered ht, hg.ancestors ht]
  · obtain ⟨more, hmore⟩ := hij.methods
    refine ⟨more, ?_⟩
    rw [Catalog.methods, query_of_info? hj, Catalog.methods, query_of_info? hi, ← hmore]
    rfl

end TypeTree

end ScopedMethods

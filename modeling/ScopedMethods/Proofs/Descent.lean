import Mathlib.Data.List.Infix
import ScopedMethods.Proofs.Ancestors
import ScopedMethods.Proofs.Calls

/-!
# Descent in a growing tree

The ancestors of a type are a list on which every ancestor's own ancestors
follow it, so any two of them are comparable and no two are equally deep. A
tree that grows keeps the ancestors of its types.
-/

set_option autoImplicit false

namespace ScopedMethods

namespace TypeTree

variable {tree tree' tree₁ : TypeTree} {a b t : TypeId}

theorem ancestors_suffix (h : a ∈ tree.ancestors t) :
    (a :: tree.ancestors a) <:+ tree.ancestors t := by
  induction t using TypeTree.ancestors.induct tree with
  | case1 t hp => simp [ancestors_of_none hp] at h
  | case2 t p hp ih =>
    rw [ancestors_of_some hp] at h ⊢
    rcases List.mem_cons.1 h with rfl | h
    · exact List.suffix_refl _
    · exact (ih h).trans (List.suffix_cons _ _)

theorem mem_ancestors_trans (h : a ∈ tree.ancestors b) (h' : b ∈ tree.ancestors t) :
    a ∈ tree.ancestors t :=
  (ancestors_suffix h').subset (List.mem_cons_of_mem _ h)

def depth (tree : TypeTree) (t : TypeId) : Nat := (tree.ancestors t).length

theorem depth_lt (h : a ∈ tree.ancestors t) : tree.depth a < tree.depth t :=
  (ancestors_suffix h).length_le

/-- A type and its ancestors form a line. -/
theorem comparable (ha : a ∈ t :: tree.ancestors t) (hb : b ∈ t :: tree.ancestors t) :
    a = b ∨ a ∈ tree.ancestors b ∨ b ∈ tree.ancestors a := by
  have hsuffix : ∀ {c}, c ∈ t :: tree.ancestors t →
      (c :: tree.ancestors c) <:+ (t :: tree.ancestors t) := by
    intro c hc
    rcases List.mem_cons.1 hc with rfl | hc
    · exact List.suffix_refl _
    · exact (ancestors_suffix hc).trans (List.suffix_cons _ _)
  rcases List.suffix_or_suffix_of_suffix (hsuffix ha) (hsuffix hb) with h | h
  · rcases List.suffix_cons_iff.1 h with he | h
    · exact Or.inl (List.cons.inj he).1
    · exact Or.inr (Or.inl (h.subset List.mem_cons_self))
  · rcases List.suffix_cons_iff.1 h with he | h
    · exact Or.inl (List.cons.inj he).1.symm
    · exact Or.inr (Or.inr (h.subset List.mem_cons_self))

theorem eq_of_depth_eq (ha : a ∈ t :: tree.ancestors t) (hb : b ∈ t :: tree.ancestors t)
    (h : tree.depth a = tree.depth b) : a = b := by
  rcases comparable ha hb with he | hm | hm
  · exact he
  · have hlt := depth_lt hm
    omega
  · have hlt := depth_lt hm
    omega

theorem registered_iff : tree.registered t = true ↔ ∃ i, tree.info? t = some i := by
  rw [registered, decide_eq_true_iff]
  simp [info?, size, Array.getElem?_eq_some_iff]

theorem registered_of_parent? (h : tree.parent? t = some a) :
    tree.registered t = true ∧ tree.registered a = true := by
  obtain ⟨i, hi, hp⟩ := Option.bind_eq_some_iff.1 h
  have ht : tree.registered t = true := registered_iff.2 ⟨i, hi⟩
  have hlt := parent?_lt h
  refine ⟨ht, ?_⟩
  simp only [registered, decide_eq_true_eq] at ht ⊢
  exact hlt.trans ht

theorem registered_of_mem_ancestors (h : a ∈ tree.ancestors t) : tree.registered t = true := by
  cases hp : tree.parent? t with
  | none => simp [ancestors_of_none hp] at h
  | some p => exact (registered_of_parent? hp).1

theorem registered_of_ancestor (ht : tree.registered t = true) (h : a ∈ tree.ancestors t) :
    tree.registered a = true := by
  have hlt := number_lt_of_mem_ancestors h
  simp only [registered, decide_eq_true_eq] at ht ⊢
  exact hlt.trans ht

end TypeTree

structure TypeInfo.Grows (old new : TypeInfo) : Prop where
  name : new.name = old.name
  parent : new.parent = old.parent
  methods : old.methods <+: new.methods

theorem TypeInfo.Grows.refl (i : TypeInfo) : i.Grows i := ⟨rfl, rfl, List.prefix_refl _⟩

theorem TypeInfo.Grows.trans {i j k : TypeInfo} (h : i.Grows j) (h' : j.Grows k) : i.Grows k :=
  ⟨h'.name.trans h.name, h'.parent.trans h.parent, h.methods.trans h'.methods⟩

namespace TypeTree

/-- A tree that another one has grown from. -/
structure Grows (old new : TypeTree) : Prop where
  kept : ∀ {t : TypeId} {i : TypeInfo}, old.info? t = some i → ∃ j, new.info? t = some j ∧ i.Grows j

variable {tree tree' tree₁ : TypeTree} {t : TypeId}

theorem Grows.refl (tree : TypeTree) : tree.Grows tree := ⟨fun h => ⟨_, h, .refl _⟩⟩

theorem Grows.trans (h : tree.Grows tree₁) (h' : tree₁.Grows tree') : tree.Grows tree' where
  kept := by
    intro t i hi
    obtain ⟨j, hj, hij⟩ := h.kept hi
    obtain ⟨k, hk, hjk⟩ := h'.kept hj
    exact ⟨k, hk, hij.trans hjk⟩

theorem grows_register {name : String} {parent id : TypeId}
    (h : tree.register name parent = .ok (id, tree')) : tree.Grows tree' := by
  have hcase := registering tree name parent
  rw [h] at hcase
  cases hcase with
  | added hparent hname _ htypes hcount =>
    constructor
    intro t i hi
    have hlt : t.number < tree.size := (Array.getElem?_eq_some_iff.1 hi).1
    refine ⟨i, ?_, .refl i⟩
    rw [info?_of_push htypes, if_neg (Nat.ne_of_lt hlt), hi]

theorem grows_declare {on : TypeId} {d : MethodDecl} (h : tree.declare on d = .ok tree') :
    tree.Grows tree' := by
  have hcase := declaring tree on d
  rw [h] at hcase
  cases hcase with
  | added hname hon hparams =>
    constructor
    intro t i hi
    rw [info?_updateMethods, hi]
    by_cases ht : on = t
    · rw [Option.map_some, if_pos ht]
      exact ⟨_, rfl, rfl, rfl, List.prefix_append _ _⟩
    · rw [Option.map_some, if_neg ht]
      exact ⟨i, rfl, .refl i⟩

theorem Grows.registered (h : tree.Grows tree') (ht : tree.registered t = true) :
    tree'.registered t = true := by
  obtain ⟨i, hi⟩ := registered_iff.1 ht
  obtain ⟨j, hj, -⟩ := h.kept hi
  exact registered_iff.2 ⟨j, hj⟩

theorem Grows.parent? (h : tree.Grows tree') (ht : tree.registered t = true) :
    tree'.parent? t = tree.parent? t := by
  obtain ⟨i, hi⟩ := registered_iff.1 ht
  obtain ⟨j, hj, hij⟩ := h.kept hi
  simp [TypeTree.parent?, hi, hj, hij.parent]

theorem Grows.ancestors (h : tree.Grows tree') (ht : tree.registered t = true) :
    tree'.ancestors t = tree.ancestors t := by
  induction t using TypeTree.ancestors.induct tree with
  | case1 t hp => rw [ancestors_of_none hp, ancestors_of_none ((h.parent? ht).trans hp)]
  | case2 t p hp ih =>
    rw [ancestors_of_some hp, ancestors_of_some ((h.parent? ht).trans hp),
      ih (registered_of_parent? hp).2]

end TypeTree

end ScopedMethods

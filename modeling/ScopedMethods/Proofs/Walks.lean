import Mathlib.Data.List.Chain
import ScopedMethods.Proofs.Records

/-!
# Walks towards the root

From a registered type there is one path to the root, and it is as long as the
type is old at most. The ancestry is that path turned around, without the root;
descent is to stand before a type on it. So descent is a strict order, and the
types above a given one are a chain in it.
-/

set_option autoImplicit false

namespace ScopedMethods

def Catalog.climb (c : Catalog) : Nat → TypeId → Except Failure (Option TypeId)
  | 0, t => .ok (some t)
  | n + 1, t =>
    match c.parent t with
    | .error f => .error f
    | .ok none => .ok none
    | .ok (some p) => c.climb n p

namespace TypeTree

variable {tree : TypeTree} {t a b p : TypeId}

theorem parent_of_registered (ht : tree.registered t = true) :
    tree.catalog.parent t = .ok (tree.parent? t) := by
  obtain ⟨i, hi⟩ := registered_iff.1 ht
  rw [Catalog.parent, query_of_info? hi, parent?, hi]
  rfl

theorem parent_of_parent? (h : tree.parent? t = some p) :
    tree.catalog.parent t = .ok (some p) := by
  rw [parent_of_registered (registered_of_parent? h).1, h]

theorem climb_of_registered (ht : tree.registered t = true) (n : Nat) :
    tree.catalog.climb n t = .ok (t :: tree.ancestors t)[n]? := by
  induction n generalizing t with
  | zero => rfl
  | succ n ih =>
    rw [Catalog.climb, parent_of_registered ht, List.getElem?_cons_succ]
    cases hp : tree.parent? t with
    | none =>
      rw [ancestors_of_none hp]
      rfl
    | some p =>
      rw [ancestors_of_some hp]
      exact ih (registered_of_parent? hp).2

theorem depth_le_number (tree : TypeTree) (t : TypeId) : tree.depth t ≤ t.number := by
  induction t using TypeTree.ancestors.induct tree with
  | case1 t hp =>
    rw [depth, ancestors_of_none hp]
    exact Nat.zero_le _
  | case2 t p hp ih =>
    have hlt := parent?_lt hp
    rw [depth] at ih ⊢
    rw [ancestors_of_some hp, List.length_cons]
    omega

theorem climb_ends (ht : tree.registered t = true) :
    ∃ n ≤ t.number + 1, tree.catalog.climb n t = .ok none ∧
      ∀ m < n, ∃ u, tree.catalog.climb m t = .ok (some u) := by
  have hdepth := depth_le_number tree t
  refine ⟨tree.depth t + 1, by omega, ?_, fun m hm => ?_⟩
  · rw [climb_of_registered ht, List.getElem?_eq_none]
    rw [List.length_cons, depth]
  · have hlt : m < (t :: tree.ancestors t).length := by rwa [List.length_cons, ← depth]
    exact ⟨_, by rw [climb_of_registered ht, List.getElem?_eq_getElem hlt]⟩

theorem nodup_cons_ancestors (tree : TypeTree) (t : TypeId) : (t :: tree.ancestors t).Nodup := by
  induction t using TypeTree.ancestors.induct tree with
  | case1 t hp =>
    rw [ancestors_of_none hp]
    exact List.nodup_singleton t
  | case2 t p hp ih =>
    rw [List.nodup_cons]
    refine ⟨not_mem_ancestors_self tree t, ?_⟩
    rw [ancestors_of_some hp]
    exact ih

theorem isChain_cons_ancestors (tree : TypeTree) (t : TypeId) :
    (t :: tree.ancestors t).IsChain fun u p => tree.catalog.parent u = .ok (some p) := by
  induction t using TypeTree.ancestors.induct tree with
  | case1 t hp =>
    rw [ancestors_of_none hp]
    exact List.isChain_singleton t
  | case2 t p hp ih =>
    rw [ancestors_of_some hp]
    exact List.isChain_cons_cons.2 ⟨parent_of_parent? hp, ih⟩

/-- The root, and of the registered types no other, has no parent. -/
def Rooted (tree : TypeTree) : Prop := ∀ t, tree.catalog.parent t = .ok none ↔ t = root

theorem Rooted.parent?_root (h : tree.Rooted) : tree.parent? root = none := by
  cases hp : tree.parent? root with
  | none => rfl
  | some p =>
    have hsome := parent_of_parent? hp
    rw [(h root).2 rfl] at hsome
    cases hsome

theorem Rooted.reverse_path (h : tree.Rooted) (ht : tree.registered t = true) :
    (t :: tree.ancestors t).reverse = root :: tree.line t := by
  induction t using TypeTree.ancestors.induct tree with
  | case1 t hp =>
    have hroot : t = root := (h t).1 (by rw [parent_of_registered ht, hp])
    rw [line, ancestors_of_none hp, hroot]
    rfl
  | case2 t p hp ih =>
    have hline : tree.line t = tree.line p ++ [t] := by
      simp [line, ancestors_of_some hp]
    rw [hline, ancestors_of_some hp, List.reverse_cons, ih (registered_of_parent? hp).2]
    rfl

structure Path (tree : TypeTree) (t : TypeId) (line : List TypeId) : Prop where
  nodup : line.Nodup
  empty : line = [] ↔ t = root
  first : ∀ u ∈ line.head?, tree.catalog.parent u = .ok (some root)
  last : t ≠ root → line.getLast? = some t
  links : line.IsChain fun p u => tree.catalog.parent u = .ok (some p)

theorem Rooted.path (h : tree.Rooted) (ht : tree.registered t = true) :
    tree.Path t (tree.line t) := by
  have hpath := h.reverse_path ht
  have hnodup : (root :: tree.line t).Nodup := by
    rw [← hpath]
    exact List.nodup_reverse.2 (nodup_cons_ancestors tree t)
  have hchain : (root :: tree.line t).IsChain fun p u => tree.catalog.parent u = .ok (some p) := by
    rw [← hpath]
    exact List.isChain_reverse.2 (isChain_cons_ancestors tree t)
  have hlast : (root :: tree.line t).getLast? = some t := by
    rw [← hpath, List.getLast?_reverse]
    rfl
  have hempty : tree.line t = [] ↔ t = root := by
    constructor
    · intro he
      rw [he] at hlast
      exact (Option.some.inj hlast).symm
    · rintro rfl
      rw [line, ancestors_of_none h.parent?_root]
      rfl
  obtain ⟨hfirst, hlinks⟩ := List.isChain_cons.1 hchain
  refine ⟨(List.nodup_cons.1 hnodup).2, hempty, hfirst, fun hne => ?_, hlinks⟩
  cases hl : tree.line t with
  | nil => exact absurd (hempty.1 hl) hne
  | cons u us =>
    rw [hl, List.getLast?_cons_cons] at hlast
    exact hlast

theorem ancestors_of_unregistered (h : tree.registered t = false) : tree.ancestors t = [] := by
  apply ancestors_of_none
  rw [parent?, info?_eq_none h]
  rfl

theorem descends_eq_true_iff : tree.catalog.descends t a = .ok true ↔ a ∈ tree.ancestors t := by
  cases ht : tree.registered t with
  | false => simp [descends_of_unregistered ht, ancestors_of_unregistered ht]
  | true => simp [descends_of_registered ht]

theorem Rooted.mem_ancestors_iff (h : tree.Rooted) (ht : tree.registered t = true) :
    a ∈ tree.ancestors t ↔
      (a = root ∧ t ≠ root) ∨ ∃ before, tree.line t = before ++ [t] ∧ a ∈ before := by
  have hpath := h.reverse_path ht
  rw [List.reverse_cons] at hpath
  rcases List.eq_nil_or_concat (tree.line t) with hl | ⟨before, u, hl⟩
  · have hroot : t = root := (h.path ht).empty.1 hl
    rw [hroot, ancestors_of_none h.parent?_root, ← hroot, hl]
    simp
  · rw [List.concat_eq_append] at hl
    rw [hl, ← List.cons_append] at hpath
    obtain ⟨habove, hu⟩ := List.append_inj' hpath rfl
    obtain rfl : t = u := (List.cons.inj hu).1
    have hne : t ≠ root := by
      intro hroot
      rw [(h.path ht).empty.2 hroot] at hl
      simp at hl
    have hmem : a ∈ tree.ancestors t ↔ a = root ∨ a ∈ before := by
      rw [← List.mem_reverse, habove, List.mem_cons]
    rw [hmem, hl]
    constructor
    · rintro (hroot | hbefore)
      · exact Or.inl ⟨hroot, hne⟩
      · exact Or.inr ⟨before, rfl, hbefore⟩
    · rintro (⟨hroot, -⟩ | ⟨other, hother, hbefore⟩)
      · exact Or.inl hroot
      · rw [List.append_cancel_right hother]
        exact Or.inr hbefore

/-- The walks on a tree, and the order that they decide. -/
structure Walks (tree : TypeTree) : Prop where
  ends : ∀ t, tree.registered t = true → ∃ n ≤ t.number + 1,
    tree.catalog.climb n t = .ok none ∧ ∀ m < n, ∃ u, tree.catalog.climb m t = .ok (some u)
  ancestry : ∀ t, tree.registered t = true →
    ∃ line, tree.catalog.ancestry t = .ok line ∧ tree.Path t line
  descends : ∀ t a, tree.registered t = true → ∃ answer,
    tree.catalog.descends t a = .ok answer ∧ (answer = true ↔ (a = root ∧ t ≠ root) ∨
      ∃ before, tree.catalog.ancestry t = .ok (before ++ [t]) ∧ a ∈ before)
  irrefl : ∀ t, tree.catalog.descends t t ≠ .ok true
  asymm : ∀ t a, tree.catalog.descends t a = .ok true → tree.catalog.descends a t ≠ .ok true
  trans : ∀ t a b, tree.catalog.descends t a = .ok true → tree.catalog.descends a b = .ok true →
    tree.catalog.descends t b = .ok true
  comparable : ∀ t a b, tree.catalog.descends t a = .ok true →
    tree.catalog.descends t b = .ok true → a ≠ b →
    tree.catalog.descends a b = .ok true ∨ tree.catalog.descends b a = .ok true
  unregistered : ∀ t, tree.registered t = false →
    tree.catalog.ancestry t = .error (.code .typeNotRegistered) ∧
      ∀ a, tree.catalog.descends t a = .error (.code .typeNotRegistered)
  stranger : ∀ t a, tree.registered t = true → tree.registered a = false →
    tree.catalog.descends t a = .ok false

theorem Rooted.walks (h : tree.Rooted) : tree.Walks where
  ends := fun _ ht => climb_ends ht
  ancestry := fun t ht => ⟨tree.line t, ancestry_of_registered ht, h.path ht⟩
  descends := by
    intro t a ht
    refine ⟨_, descends_of_registered ht a, ?_⟩
    rw [decide_eq_true_iff, h.mem_ancestors_iff ht, ancestry_of_registered ht]
    simp only [Except.ok.injEq]
  irrefl := by
    intro t hd
    exact not_mem_ancestors_self tree t (descends_eq_true_iff.1 hd)
  asymm := by
    intro t a hd hd'
    have hlt := number_lt_of_mem_ancestors (descends_eq_true_iff.1 hd)
    have hlt' := number_lt_of_mem_ancestors (descends_eq_true_iff.1 hd')
    omega
  trans := by
    intro t a b hd hd'
    rw [descends_eq_true_iff] at hd hd' ⊢
    exact mem_ancestors_trans hd' hd
  comparable := by
    intro t a b ha hb hne
    rw [descends_eq_true_iff] at ha hb ⊢
    rw [descends_eq_true_iff]
    rcases TypeTree.comparable (List.mem_cons_of_mem t ha) (List.mem_cons_of_mem t hb) with
      he | hm | hm
    · exact absurd he hne
    · exact Or.inr hm
    · exact Or.inl hm
  unregistered := fun _ ht =>
    ⟨ancestry_of_unregistered ht, fun a => descends_of_unregistered ht a⟩
  stranger := by
    intro t a ht ha
    rw [descends_of_registered ht]
    congr 1
    apply decide_eq_false
    intro hm
    rw [registered_of_ancestor ht hm] at ha
    cases ha

end TypeTree

namespace Registry

/-- Whatever calls made a tree, its walks come to their ends and decide a strict order. -/
theorem walks_recorded (s : Store) (calls : List Call) : ((new s).run calls).2.tree.Walks := by
  have h : Tells ((new s).run calls).1 ((new s).run calls).2.tree :=
    tells_run (tells_new s) calls
  have hrooted : ((new s).run calls).2.tree.Rooted := fun _ => h.parent_eq_none_iff
  exact hrooted.walks

end Registry

end ScopedMethods

import Mathlib.Data.List.TakeWhile
import ScopedMethods.Chain.Candidate

/-!
# Ancestors and the queries that are asked

The strict ancestors of a type are read off the tree alone. A walk towards the
root and the search for a candidate's place ask queries in a fixed order; each
fails with the first query that fails and otherwise gives what the tree says.
-/

set_option autoImplicit false

namespace ScopedMethods

namespace TypeTree

def parent? (tree : TypeTree) (t : TypeId) : Option TypeId :=
  (tree.info? t).bind TypeInfo.parent

theorem parent?_lt {tree : TypeTree} {t p : TypeId} (h : tree.parent? t = some p) :
    p.number < t.number := by
  obtain ⟨i, hi, hp⟩ := Option.bind_eq_some_iff.1 h
  exact tree.parent_lt hi hp

def ancestors (tree : TypeTree) (t : TypeId) : List TypeId :=
  match _h : tree.parent? t with
  | none => []
  | some p => p :: tree.ancestors p
termination_by t.number
decreasing_by exact parent?_lt _h

def line (tree : TypeTree) (t : TypeId) : List TypeId :=
  (t :: tree.ancestors t).dropLast.reverse

def methodsOf (tree : TypeTree) (t : TypeId) : List Method :=
  (tree.info? t).elim [] TypeInfo.methods

/-- A new candidate among older ones: just before the first whose target is a
strict ancestor of its own, or last. -/
def insert (tree : TypeTree) (new : Candidate) (es : List Candidate) : List Candidate :=
  es.takeWhile (fun e => e.target ∉ tree.ancestors new.target) ++
    new :: es.dropWhile (fun e => e.target ∉ tree.ancestors new.target)

theorem ancestors_of_none {tree : TypeTree} {t : TypeId} (h : tree.parent? t = none) :
    tree.ancestors t = [] := by
  rw [ancestors]
  split
  · rfl
  · simp_all

theorem ancestors_of_some {tree : TypeTree} {t p : TypeId} (h : tree.parent? t = some p) :
    tree.ancestors t = p :: tree.ancestors p := by
  rw [ancestors]
  split <;> simp_all

theorem number_lt_of_mem_ancestors {tree : TypeTree} {t a : TypeId} (h : a ∈ tree.ancestors t) :
    a.number < t.number := by
  induction t using TypeTree.ancestors.induct tree with
  | case1 t hp => simp [ancestors_of_none hp] at h
  | case2 t p hp ih =>
    have hlt := parent?_lt hp
    rw [ancestors_of_some hp] at h
    rcases List.mem_cons.1 h with rfl | h
    · exact hlt
    · exact (ih h).trans hlt

theorem not_mem_ancestors_self (tree : TypeTree) (t : TypeId) : t ∉ tree.ancestors t :=
  fun h => Nat.lt_irrefl _ (number_lt_of_mem_ancestors h)

theorem insert_cons (tree : TypeTree) (new e : Candidate) (es : List Candidate) :
    tree.insert new (e :: es) =
      if e.target ∈ tree.ancestors new.target then new :: e :: es else e :: tree.insert new es := by
  by_cases h : e.target ∈ tree.ancestors new.target <;> simp [insert, h]

theorem length_insert (tree : TypeTree) (new : Candidate) (es : List Candidate) :
    (tree.insert new es).length = es.length + 1 := by
  induction es with
  | nil => rfl
  | cons e es ih =>
    rw [insert_cons]
    split <;> simp [ih]

theorem sublist_insert (tree : TypeTree) (new : Candidate) (es : List Candidate) :
    es.Sublist (tree.insert new es) := by
  induction es with
  | nil => exact List.nil_sublist _
  | cons e es ih =>
    rw [insert_cons]
    split
    · exact List.sublist_cons_self _ _
    · exact ih.cons_cons e

def walk (tree : TypeTree) (t : TypeId) : List (Query × TypeId) :=
  (t :: tree.ancestors t).map (Query.parent, ·)

def descent (tree : TypeTree) (child ancestor : TypeId) : List (Query × TypeId) :=
  (child :: (tree.ancestors child).takeWhile (· ≠ ancestor)).map (Query.parent, ·)

def comparing (tree : TypeTree) (new old : Candidate) : List (Query × TypeId) :=
  if new.target = old.target then [] else tree.descent new.target old.target

def placing (tree : TypeTree) (new : Candidate) : List Candidate → List (Query × TypeId)
  | [] => []
  | e :: es =>
    tree.comparing new e ++
      if e.target ∈ tree.ancestors new.target then [] else tree.placing new es

end TypeTree

namespace Catalog

variable {α β : Type}

def ask (c : Catalog) (q : Query × TypeId) : Option Failure :=
  match c.info q.1 q.2 with
  | .error f => some f
  | .ok _ => none

/-- The failure of the first query that fails, or else the given value. -/
def answered (c : Catalog) (qs : List (Query × TypeId)) (x : α) : Except Failure α :=
  match qs.findSome? c.ask with
  | some f => .error f
  | none => .ok x

theorem answered_nil (c : Catalog) (x : α) : c.answered [] x = .ok x := rfl

theorem answered_map (c : Catalog) (qs : List (Query × TypeId)) (x : α) (f : α → β) :
    (c.answered qs x).map f = c.answered qs (f x) := by
  unfold answered
  split <;> rfl

theorem answered_append (c : Catalog) (qs rs : List (Query × TypeId)) (x : α) (y : β) :
    c.answered (qs ++ rs) y =
      match c.answered qs x with
      | .error f => .error f
      | .ok _ => c.answered rs y := by
  simp only [answered, List.findSome?_append]
  cases qs.findSome? c.ask <;> rfl

theorem answered_ok_iff (c : Catalog) (qs : List (Query × TypeId)) (x y : α) :
    c.answered qs x = .ok y ↔ qs.findSome? c.ask = none ∧ x = y := by
  unfold answered
  cases qs.findSome? c.ask <;> simp

theorem answered_cons (c : Catalog) (q : Query) (t : TypeId) (qs : List (Query × TypeId)) (x : α) :
    c.answered ((q, t) :: qs) x =
      match c.info q t with
      | .error f => .error f
      | .ok _ => c.answered qs x := by
  unfold answered
  rw [List.findSome?_cons]
  simp only [ask]
  cases c.info q t <;> rfl

theorem info_eq_ok {c : Catalog} {q : Query} {t : TypeId} {i : TypeInfo} (h : c.info q t = .ok i) :
    c.tree.info? t = some i := by
  unfold info at h
  split at h
  · cases h
  · cases hi : c.tree.info? t with
    | none => simp [hi] at h
    | some j => simpa [hi] using h

theorem methods_eq (c : Catalog) (t : TypeId) :
    c.methods t = c.answered [(.methods, t)] (c.tree.methodsOf t) := by
  rw [answered_cons, methods]
  cases h : c.info .methods t with
  | error f => rfl
  | ok i => simp [Except.map, answered_nil, TypeTree.methodsOf, info_eq_ok h]

theorem parent_error {c : Catalog} {t : TypeId} {f : Failure} (h : c.parent t = .error f)
    (qs : List (Query × TypeId)) (x : α) : c.answered ((.parent, t) :: qs) x = .error f := by
  rw [answered_cons]
  cases hi : c.info .parent t with
  | error g => simpa [parent, hi, Except.map] using h
  | ok i => simp [parent, hi, Except.map] at h

theorem parent_ok {c : Catalog} {t : TypeId} {p : Option TypeId} (h : c.parent t = .ok p)
    (qs : List (Query × TypeId)) (x : α) :
    c.tree.parent? t = p ∧ c.answered ((.parent, t) :: qs) x = c.answered qs x := by
  rw [answered_cons]
  cases hi : c.info .parent t with
  | error g => simp [parent, hi, Except.map] at h
  | ok i =>
    refine ⟨?_, rfl⟩
    simpa [parent, hi, Except.map, TypeTree.parent?, info_eq_ok hi] using h

/-- The ancestry walk gives the line of the type, or the first failure on it. -/
theorem ancestry_eq (c : Catalog) (t : TypeId) :
    c.ancestry t = c.answered (c.tree.walk t) (c.tree.line t) := by
  induction t using Catalog.ancestry.induct c with
  | case1 t f h =>
    rw [ancestry]
    split
    · simp_all [TypeTree.walk, parent_error h]
    all_goals simp_all
  | case2 t h =>
    obtain ⟨hp, hq⟩ := parent_ok h [] (c.tree.line t)
    rw [ancestry]
    split
    · simp_all
    · rw [TypeTree.walk, TypeTree.ancestors_of_none hp]
      simp_all [TypeTree.line, TypeTree.ancestors_of_none hp, answered_nil]
    · simp_all
  | case3 t p h ih =>
    obtain ⟨hp, hq⟩ := parent_ok h (c.tree.walk p) (c.tree.line t)
    have hl : c.tree.line t = c.tree.line p ++ [t] := by
      simp [TypeTree.line, TypeTree.ancestors_of_some hp]
    rw [ancestry]
    split
    · simp_all
    · simp_all
    · rename_i p' h'
      obtain rfl : p = p' := by simpa [h] using h'
      rw [ih, answered_map, ← hl, ← hq, TypeTree.walk, TypeTree.walk,
        TypeTree.ancestors_of_some hp]
      rfl

/-- The descent walk decides strict descent, or gives the first failure on it. -/
theorem descends_eq (c : Catalog) (child ancestor : TypeId) :
    c.descends child ancestor = c.answered (c.tree.descent child ancestor)
      (decide (ancestor ∈ c.tree.ancestors child)) := by
  induction child using Catalog.descends.induct c ancestor with
  | case1 t f h =>
    rw [descends]
    split
    · simp_all [TypeTree.descent, parent_error h]
    all_goals simp_all
  | case2 t h =>
    obtain ⟨hp, hq⟩ := parent_ok h [] false
    rw [descends]
    split
    · simp_all
    · simp_all [TypeTree.descent, TypeTree.ancestors_of_none hp, answered_nil]
    · simp_all
  | case3 t h =>
    obtain ⟨hp, hq⟩ := parent_ok h [] true
    rw [descends]
    split
    · simp_all
    · simp_all
    · rename_i p' h'
      obtain rfl : ancestor = p' := by simpa [h] using h'
      simp [TypeTree.descent, TypeTree.ancestors_of_some hp, hq, answered_nil]
  | case4 t p h hne ih =>
    obtain ⟨hp, hq⟩ := parent_ok h (c.tree.descent p ancestor)
      (decide (ancestor ∈ c.tree.ancestors t))
    have hd : c.tree.descent t ancestor = (.parent, t) :: c.tree.descent p ancestor := by
      simp [TypeTree.descent, TypeTree.ancestors_of_some hp, hne]
    have hm : ancestor ∈ c.tree.ancestors t ↔ ancestor ∈ c.tree.ancestors p := by
      simp [TypeTree.ancestors_of_some hp, Ne.symm hne]
    rw [descends]
    split
    · simp_all
    · simp_all
    · rename_i p' h'
      obtain rfl : p = p' := by simpa [h] using h'
      rw [if_neg hne, ih, hd, hq]
      simp [hm]

theorem moreSpecific_eq (c : Catalog) (new old : Candidate) :
    c.moreSpecific new old = c.answered (c.tree.comparing new old)
      (decide (old.target ∈ c.tree.ancestors new.target)) := by
  unfold moreSpecific TypeTree.comparing
  split
  · rename_i h
    simp [answered_nil, h, TypeTree.not_mem_ancestors_self]
  · exact descends_eq c new.target old.target

/-- A candidate finds its place in the order of the tree, unless a comparison fails. -/
theorem place_eq (c : Catalog) (new : Candidate) (es : List Candidate) :
    c.place new es = c.answered (c.tree.placing new es) (c.tree.insert new es) := by
  induction es with
  | nil => rfl
  | cons e es ih =>
    rw [place, moreSpecific_eq, TypeTree.placing, TypeTree.insert_cons,
      answered_append c _ _ (decide (e.target ∈ c.tree.ancestors new.target))]
    cases h : c.answered (c.tree.comparing new e)
        (decide (e.target ∈ c.tree.ancestors new.target)) with
    | error f => rfl
    | ok b =>
      obtain rfl := ((answered_ok_iff c _ _ _).1 h).2
      by_cases hm : e.target ∈ c.tree.ancestors new.target
      · simp [hm, answered_nil]
      · simp [hm, ih, answered_map]

end Catalog

end ScopedMethods

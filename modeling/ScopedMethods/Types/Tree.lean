import ScopedMethods.Slots
import ScopedMethods.Types.Method

/-!
# The type tree

Types under one root, and an index of their names. A tree only grows: a
registration adds a type below an older one, a declaration adds a method to a
type. Parents are therefore older than their children, and every walk towards the
root ends.
-/

set_option autoImplicit false

namespace ScopedMethods

structure TypeInfo where
  name : String
  parent : Option TypeId
  /-- The eligible methods, in order of declaration. -/
  methods : List Method
  /-- How many methods were declared, eligible or not. -/
  declared : Nat

/-- A type as it is after one more declaration. -/
def TypeInfo.withMethod (i : TypeInfo) (m : Option Method) : TypeInfo :=
  { i with methods := i.methods ++ m.toList, declared := i.declared + 1 }

/-- The index has each name under the number of the type that bears it. -/
def Indexes (ids : Slots String TypeId) (types : Array TypeInfo) : Prop :=
  ∀ name t, ids.get? name = some t ↔ ∃ i, types[t.number]? = some i ∧ i.name = name

namespace Indexes

variable {ids : Slots String TypeId} {types : Array TypeInfo}

theorem push (h : Indexes ids types) (i : TypeInfo) (hn : ids.get? i.name = none) :
    Indexes (ids.setNew i.name ⟨types.size⟩) (types.push i) := by
  intro name t
  have hid : (⟨types.size⟩ : TypeId) = t ↔ t.number = types.size := by
    cases t
    simp [eq_comm]
  rw [Slots.get?_setNew, Array.getElem?_push]
  by_cases hname : i.name = name
  · subst hname
    have hold : ∀ j, types[t.number]? = some j → j.name ≠ i.name := fun j hj he => by
      rw [(h i.name t).2 ⟨j, hj, he⟩] at hn
      cases hn
    by_cases ht : t.number = types.size
    · simp [hn, hid, ht]
    · simpa [hn, hid, ht] using hold
  · rw [if_neg fun he => hname he.1, h]
    by_cases ht : t.number = types.size
    · simp [ht, hname]
    · simp [ht]

theorem modify (h : Indexes ids types) (n : Nat) {f : TypeInfo → TypeInfo}
    (hf : ∀ i, (f i).name = i.name) : Indexes ids (types.modify n f) := by
  intro name t
  rw [h, Array.getElem?_modify]
  by_cases ht : n = t.number
  · simp only [if_pos ht, Option.map_eq_some_iff]
    constructor
    · rintro ⟨i, hi, hname⟩
      exact ⟨f i, ⟨i, hi, rfl⟩, (hf i).trans hname⟩
    · rintro ⟨_, ⟨i, hi, rfl⟩, hname⟩
      exact ⟨i, hi, (hf i).symm.trans hname⟩
  · rw [if_neg ht]

end Indexes

structure TypeTree where
  types : Array TypeInfo
  ids : Slots String TypeId
  methodCount : Nat
  parent_lt : ∀ {n : Nat} {i : TypeInfo} {p : TypeId},
    types[n]? = some i → i.parent = some p → p.number < n
  indexed : Indexes ids types

inductive Refusal where
  | parentUnknown (name : String) (parent : TypeId)
  | nameTaken (name : String)
  | methodUnnamed
  | declaringUnknown (method : String) (type : TypeId)
  | parameterUnknown (method : String) (type : TypeId)
  | atMaximum (level : UInt32)
deriving DecidableEq, Repr

def Refusal.code : Refusal → ErrorCode
  | parentUnknown .. => .typeNotRegistered
  | nameTaken .. => .typeAlreadyRegistered
  | methodUnnamed => .methodNameEmpty
  | declaringUnknown .. => .typeNotRegistered
  | parameterUnknown .. => .typeNotRegistered
  | atMaximum .. => .nestingTooDeep

namespace TypeTree

def root : TypeId := ⟨0⟩

def rootName : String := "Object"

def new : TypeTree where
  types := #[⟨rootName, none, [], 0⟩]
  ids := [(rootName, root)]
  methodCount := 0
  parent_lt := by
    intro n i p h hp
    match n with
    | 0 => simp at h; subst h; simp at hp
    | n + 1 => simp at h
  indexed := by
    have hempty : Indexes [] #[] := fun _ _ => by simp [Slots.get?]
    exact hempty.push ⟨rootName, none, [], 0⟩ rfl

def size (tree : TypeTree) : Nat := tree.types.size

def registered (tree : TypeTree) (t : TypeId) : Bool := t.number < tree.size

def info? (tree : TypeTree) (t : TypeId) : Option TypeInfo := tree.types[t.number]?

def find? (tree : TypeTree) (name : String) : Option TypeId := tree.ids.get? name

def enrol (tree : TypeTree) (name : String) (parent : TypeId) (hp : tree.registered parent = true)
    (hn : ¬ tree.ids.contains name = true) : TypeTree where
  types := tree.types.push ⟨name, some parent, [], 0⟩
  ids := tree.ids.setNew name ⟨tree.size⟩
  methodCount := tree.methodCount
  parent_lt := by
    intro n i p ht hi
    rw [Array.getElem?_push] at ht
    split at ht
    · cases ht; cases hi; rename_i hlast; exact hlast ▸ of_decide_eq_true hp
    · exact tree.parent_lt ht hi
  indexed := tree.indexed.push ⟨name, some parent, [], 0⟩ (by simpa [Slots.contains] using hn)

def updateMethods (tree : TypeTree) (t : TypeId) (m : Option Method) : TypeTree where
  types := tree.types.modify t.number (TypeInfo.withMethod · m)
  ids := tree.ids
  methodCount := tree.methodCount + m.toList.length
  parent_lt := by
    intro n i p hu hp
    rw [Array.getElem?_modify] at hu
    split at hu
    · obtain ⟨j, hj, rfl⟩ := Option.map_eq_some_iff.1 hu
      exact tree.parent_lt hj hp
    · exact tree.parent_lt hu hp
  indexed := tree.indexed.modify t.number fun _ => rfl

/-- The method that a declaration makes, if it is eligible. -/
def methodOf (tree : TypeTree) (t : TypeId) (d : MethodDecl) : Option Method :=
  match d.params with
  | [] => none
  | target :: _ =>
    if d.eligible then some ⟨.declared tree.methodCount, d.name, t, target, d.body⟩ else none

end TypeTree

end ScopedMethods

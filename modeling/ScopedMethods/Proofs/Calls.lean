import ScopedMethods.Report

/-!
# Calls that can be refused

A call is made with a place for a code or without one, and its two forms come
from one report: the code is left in the place, or raised. Registrations and
declarations are refused for their first cause in a fixed order; accepted, they
change one entry of the tree.
-/

set_option autoImplicit false

namespace ScopedMethods

def Delivery.accepted? {α : Type} : Delivery α → Option α
  | (.ok v, none) => some v
  | (.ok v, some none) => some v
  | _ => none

/-- How a call with a place for its code comes out, whatever the place held: a code is
written there, or what was there is cleared. -/
inductive Settles {σ α : Type} (op : Coded σ → α × Coded σ) (x : σ) : Reported α → σ → Prop where
  | refused (v : α) (c : ErrorCode) (y : σ) (h : ∀ held, op ⟨x, held⟩ = (v, ⟨y, some c⟩)) :
    Settles op x ⟨v, some c⟩ y
  | accepted (v : α) (y : σ) (h : ∀ held, op ⟨x, held⟩ = (v, ⟨y, none⟩)) :
    Settles op x ⟨v, none⟩ y

namespace Settles

variable {σ α : Type} {op : Coded σ → α × Coded σ} {x y : σ} {r : Reported α}

theorem eq (h : Settles op x r y) (held : Option ErrorCode) :
    op ⟨x, held⟩ = (r.value, ⟨y, r.code⟩) := by
  cases h with
  | refused v c y h => exact h held
  | accepted v y h => exact h held

theorem reported (h : Settles op x r y) : reported op x = (r, y) := by
  rw [ScopedMethods.reported, h.eq]

theorem raising (h : Settles op x r y) : inForm op none x = ((r.orRaise, none), y) := by
  rw [inForm, h.reported]

theorem reporting (h : Settles op x r y) (held : Option ErrorCode) :
    inForm op (some held) x = ((.ok r.value, some r.code), y) := by
  rw [inForm, h.eq]

theorem state (h : Settles op x r y) (place : CodePlace) : (inForm op place x).2 = y := by
  cases place with
  | none => rw [h.raising]
  | some held => rw [h.reporting]

theorem accepted? (h : Settles op x r y) (place : CodePlace) :
    (inForm op place x).1.accepted? = if r.code = none then some r.value else none := by
  obtain ⟨v, code⟩ := r
  cases place with
  | none =>
    rw [h.raising]
    cases code <;> rfl
  | some held =>
    rw [h.reporting]
    cases code <;> rfl

end Settles

namespace TypeTree

def Taken (tree : TypeTree) (name : String) : Prop :=
  ∃ t i, tree.info? t = some i ∧ i.name = name

variable {tree : TypeTree} {name : String} {parent on t : TypeId} {i : TypeInfo} {d : MethodDecl}

/-- The index of names agrees with the table of types. -/
theorem find?_eq_some_iff :
    tree.find? name = some t ↔ ∃ i, tree.info? t = some i ∧ i.name = name :=
  tree.indexed name t

theorem find?_eq_none_iff : tree.find? name = none ↔ ¬tree.Taken name := by
  rw [Option.eq_none_iff_forall_ne_some, Taken, not_exists]
  exact forall_congr' fun t => not_congr find?_eq_some_iff

theorem contains_ids_iff : tree.ids.contains name = true ↔ tree.Taken name := by
  rw [Slots.contains, Option.isSome_iff_ne_none, ← find?, Ne, find?_eq_none_iff]
  exact Classical.not_not

/-- A registration but for its log and its code. -/
def register (tree : TypeTree) (name : String) (parent : TypeId) :
    Except Refusal (TypeId × TypeTree) :=
  if hp : tree.registered parent = true then
    if hn : tree.ids.contains name = true then .error (.nameTaken name)
    else .ok (⟨tree.size⟩, tree.enrol name parent hp hn)
  else .error (.parentUnknown name parent)

/-- A declaration but for its log and its code. -/
def declare (tree : TypeTree) (t : TypeId) (d : MethodDecl) : Except Refusal TypeTree :=
  if d.name.isEmpty then .error .methodUnnamed
  else if !tree.registered t then .error (.declaringUnknown d.name t)
  else
    match d.params.find? fun p => !tree.registered p with
    | some p => .error (.parameterUnknown d.name p)
    | none => .ok (tree.updateMethods t (tree.methodOf t d))

inductive Registering (tree : TypeTree) (name : String) (parent : TypeId) :
    Except Refusal (TypeId × TypeTree) → Prop where
  | unknown (hparent : tree.registered parent = false) :
    Registering tree name parent (.error (.parentUnknown name parent))
  | taken (hparent : tree.registered parent = true) (hname : tree.Taken name) :
    Registering tree name parent (.error (.nameTaken name))
  | added (hparent : tree.registered parent = true) (hname : ¬tree.Taken name) (tree' : TypeTree)
    (htypes : tree'.types = tree.types.push ⟨name, some parent, [], 0⟩)
    (hcount : tree'.methodCount = tree.methodCount) :
    Registering tree name parent (.ok (⟨tree.size⟩, tree'))

theorem registering (tree : TypeTree) (name : String) (parent : TypeId) :
    tree.Registering name parent (tree.register name parent) := by
  unfold register
  by_cases hp : tree.registered parent = true
  · rw [dif_pos hp]
    by_cases hn : tree.ids.contains name = true
    · rw [dif_pos hn]
      exact .taken hp (contains_ids_iff.1 hn)
    · rw [dif_neg hn]
      exact .added hp (mt contains_ids_iff.2 hn) _ rfl rfl
  · rw [dif_neg hp]
    exact .unknown (Bool.not_eq_true _ ▸ hp)

inductive Declaring (tree : TypeTree) (on : TypeId) (d : MethodDecl) :
    Except Refusal TypeTree → Prop where
  | unnamed (hname : d.name = "") : Declaring tree on d (.error .methodUnnamed)
  | unknown (hname : d.name ≠ "") (hon : tree.registered on = false) :
    Declaring tree on d (.error (.declaringUnknown d.name on))
  | parameter (hname : d.name ≠ "") (hon : tree.registered on = true) (p : TypeId)
    (hp : p ∈ d.params) (hunknown : tree.registered p = false) :
    Declaring tree on d (.error (.parameterUnknown d.name p))
  | added (hname : d.name ≠ "") (hon : tree.registered on = true)
    (hparams : ∀ p ∈ d.params, tree.registered p = true) :
    Declaring tree on d (.ok (tree.updateMethods on (tree.methodOf on d)))

theorem declaring (tree : TypeTree) (on : TypeId) (d : MethodDecl) :
    tree.Declaring on d (tree.declare on d) := by
  unfold declare
  by_cases hn : d.name = ""
  · rw [if_pos (String.isEmpty_iff.2 hn)]
    exact .unnamed hn
  rw [if_neg (mt String.isEmpty_iff.1 hn)]
  cases hon : tree.registered on with
  | false => exact .unknown hn hon
  | true =>
    cases hf : d.params.find? fun p => !tree.registered p with
    | some p =>
      have hp : tree.registered p = false := by simpa using List.find?_some hf
      exact .parameter hn hon p (List.mem_of_find?_eq_some hf) hp
    | none =>
      refine .added hn hon fun p hp => ?_
      simpa using List.find?_eq_none.1 hf p hp

theorem info?_of_push {tree' : TypeTree} (h : tree'.types = tree.types.push i) (t : TypeId) :
    tree'.info? t = if t.number = tree.size then some i else tree.info? t := by
  rw [info?, h, Array.getElem?_push]
  rfl

theorem size_of_push {tree' : TypeTree} (h : tree'.types = tree.types.push i) :
    tree'.size = tree.size + 1 := by
  rw [size, h, Array.size_push, size]

theorem info?_updateMethods (tree : TypeTree) (on : TypeId) (m : Option Method) (t : TypeId) :
    (tree.updateMethods on m).info? t =
      (tree.info? t).map fun i => if on = t then i.withMethod m else i := by
  have heq : on.number = t.number ↔ on = t := by cases on; cases t; simp
  rw [info?, updateMethods, Array.getElem?_modify, info?]
  by_cases h : on = t
  · simp [h]
  · simp [heq, h]

end TypeTree

namespace Registry

variable {g : Registry} {tree' : TypeTree} {name : String} {parent on id : TypeId}
  {d : MethodDecl} {r : Refusal}

def warned (g : Registry) (c : Caller) (r : Refusal) : Registry :=
  { g with store := g.store.refuse c 0 r }

def declared (g : Registry) (c : Caller) (on : TypeId) (d : MethodDecl) (tree : TypeTree) :
    Registry :=
  match tree.info? on with
  | none => ⟨tree, g.store⟩
  | some i =>
    ⟨tree, g.store.note c
      (.methodDeclared i.name d.name d.eligible i.methods.length i.declared)⟩

theorem tree_declared (c : Caller) : (g.declared c on d tree').tree = tree' := by
  rw [declared]
  cases tree'.info? on <;> rfl

theorem register_eq (g : Registry) (c : Caller) (name : String) (parent : TypeId)
    (held : Option ErrorCode) : register c name parent ⟨g, held⟩ =
      match g.tree.register name parent with
      | .error r => (noType, ⟨g.warned c r, some r.code⟩)
      | .ok (id, tree') => (id, ⟨⟨tree', g.store.note c
          (.typeRegistered name id ((g.tree.info? parent).elim "" TypeInfo.name))⟩, none⟩) := by
  simp only [register, TypeTree.register]
  by_cases hp : g.tree.registered parent = true
  · rw [dif_pos hp, dif_pos hp]
    by_cases hn : g.tree.ids.contains name = true
    · rw [dif_pos hn, dif_pos hn]
      rfl
    · rw [dif_neg hn, dif_neg hn]
      rfl
  · rw [dif_neg hp, dif_neg hp]
    rfl

theorem declare_eq (g : Registry) (c : Caller) (on : TypeId) (d : MethodDecl)
    (held : Option ErrorCode) : declare c on d ⟨g, held⟩ =
      match g.tree.declare on d with
      | .error r => ((), ⟨g.warned c r, some r.code⟩)
      | .ok tree' => ((), ⟨g.declared c on d tree', none⟩) := by
  simp only [declare, TypeTree.declare]
  by_cases hname : d.name.isEmpty = true
  · rw [if_pos hname, if_pos hname]
    rfl
  rw [if_neg hname, if_neg hname]
  by_cases hon : (!g.tree.registered on) = true
  · rw [if_pos hon, if_pos hon]
    rfl
  rw [if_neg hon, if_neg hon]
  cases d.params.find? fun p => !g.tree.registered p with
  | some p => rfl
  | none =>
    simp only [declared]
    cases (g.tree.updateMethods on (g.tree.methodOf on d)).info? on <;> rfl

/-- A refused call leaves the tree as it is. -/
theorem register_error (h : g.tree.register name parent = .error r) (c : Caller) :
    Settles (register c name parent) g ⟨noType, some r.code⟩ (g.warned c r) :=
  .refused _ _ _ fun held => by rw [register_eq, h]

theorem register_ok (h : g.tree.register name parent = .ok (id, tree')) (c : Caller) :
    Settles (register c name parent) g (.success id) ⟨tree', g.store.note c
      (.typeRegistered name id ((g.tree.info? parent).elim "" TypeInfo.name))⟩ :=
  .accepted _ _ fun held => by rw [register_eq, h]

theorem declare_error (h : g.tree.declare on d = .error r) (c : Caller) :
    Settles (declare c on d) g ⟨(), some r.code⟩ (g.warned c r) :=
  .refused _ _ _ fun held => by rw [declare_eq, h]

theorem declare_ok (h : g.tree.declare on d = .ok tree') (c : Caller) :
    Settles (declare c on d) g (.success ()) (g.declared c on d tree') :=
  .accepted _ _ fun held => by rw [declare_eq, h]

theorem register_settles (g : Registry) (c : Caller) (name : String) (parent : TypeId) :
    ∃ r g', Settles (register c name parent) g r g' := by
  cases h : g.tree.register name parent with
  | error r => exact ⟨_, _, register_error h c⟩
  | ok p => exact ⟨_, _, register_ok h c⟩

theorem declare_settles (g : Registry) (c : Caller) (on : TypeId) (d : MethodDecl) :
    ∃ r g', Settles (declare c on d) g r g' := by
  cases h : g.tree.declare on d with
  | error r => exact ⟨_, _, declare_error h c⟩
  | ok tree' => exact ⟨_, _, declare_ok h c⟩

end Registry

namespace TypeTree

variable {tree : TypeTree} {name : String} {parent on : TypeId} {d : MethodDecl}

theorem registerReporting_eq (tree : TypeTree) (c : Caller) (name : String) (parent : TypeId)
    (s : Store) : tree.registerReporting c name parent s =
      match tree.register name parent with
      | .error r => (⟨noType, some r.code⟩, tree, s.refuse c 0 r)
      | .ok (id, tree') => (.success id, tree',
          s.note c (.typeRegistered name id ((tree.info? parent).elim "" TypeInfo.name))) := by
  rw [registerReporting]
  cases h : tree.register name parent with
  | error r => rw [(Registry.register_error (g := ⟨tree, s⟩) h c).reported]; rfl
  | ok p => rw [(Registry.register_ok (g := ⟨tree, s⟩) h c).reported]

theorem declareReporting_eq (tree : TypeTree) (c : Caller) (on : TypeId) (d : MethodDecl)
    (s : Store) : tree.declareReporting c on d s =
      match tree.declare on d with
      | .error r => (⟨(), some r.code⟩, tree, s.refuse c 0 r)
      | .ok tree' =>
        match tree'.info? on with
        | none => (.success (), tree', s)
        | some i => (.success (), tree',
            s.note c (.methodDeclared i.name d.name d.eligible i.methods.length i.declared)) := by
  rw [declareReporting]
  cases h : tree.declare on d with
  | error r => rw [(Registry.declare_error (g := ⟨tree, s⟩) h c).reported]; rfl
  | ok tree' =>
    rw [(Registry.declare_ok (g := ⟨tree, s⟩) h c).reported]
    simp only [Registry.declared]
    cases tree'.info? on <;> rfl

end TypeTree

end ScopedMethods

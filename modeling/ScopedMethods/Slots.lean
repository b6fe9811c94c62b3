/-!
# Slots

Values under keys. Setting a key replaces its value in place or appends a new
slot, so a table built by `set` holds each key at most once.
-/

set_option autoImplicit false

namespace ScopedMethods

abbrev Slots (κ α : Type) := List (κ × α)

namespace Slots

variable {κ α β : Type} [DecidableEq κ]

def get? (k : κ) : Slots κ α → Option α
  | [] => none
  | p :: s => if p.1 = k then some p.2 else get? k s

def set (k : κ) (v : α) : Slots κ α → Slots κ α
  | [] => [(k, v)]
  | p :: s => if p.1 = k then (k, v) :: s else p :: set k v s

def erase (k : κ) : Slots κ α → Slots κ α
  | [] => []
  | p :: s => if p.1 = k then erase k s else p :: erase k s

def setNew (k : κ) (v : α) (s : Slots κ α) : Slots κ α :=
  match s.get? k with
  | some _ => s
  | none => s.set k v

def contains (k : κ) (s : Slots κ α) : Bool := (s.get? k).isSome

def keys (s : Slots κ α) : List κ := s.map Prod.fst

theorem get?_set (k j : κ) (v : α) (s : Slots κ α) :
    get? j (set k v s) = if k = j then some v else get? j s := by
  induction s with
  | nil => simp [set, get?]
  | cons p s ih =>
    by_cases hk : p.1 = k
    · by_cases hj : k = j <;> simp [set, get?, hk, hj]
    · by_cases hj : k = j
      · subst hj; simp [set, get?, hk, ih]
      · simp [set, get?, hk, hj, ih]

theorem get?_set_self (k : κ) (v : α) (s : Slots κ α) : get? k (set k v s) = some v := by
  simp [get?_set]

theorem get?_set_ne {k j : κ} (h : k ≠ j) (v : α) (s : Slots κ α) :
    get? j (set k v s) = get? j s := by
  simp [get?_set, h]

theorem get?_setNew (k j : κ) (v : α) (s : Slots κ α) :
    get? j (setNew k v s) = if k = j ∧ get? k s = none then some v else get? j s := by
  unfold setNew
  cases h : get? k s with
  | some w => simp
  | none => simp [get?_set]

theorem get?_erase (k j : κ) (s : Slots κ α) :
    get? j (erase k s) = if k = j then none else get? j s := by
  induction s with
  | nil => simp [erase, get?]
  | cons p s ih =>
    by_cases hj : k = j
    · subst hj
      by_cases hk : p.1 = k <;> simp_all [erase, get?]
    · by_cases hk : p.1 = k
      · simp [erase, get?, hk, hj, ih]
      · simp [erase, get?, hk, hj, ih]

end Slots

end ScopedMethods

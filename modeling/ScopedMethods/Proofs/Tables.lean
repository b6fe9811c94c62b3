import Mathlib.Algebra.GroupWithZero.Nat
import Mathlib.Algebra.Order.BigOperators.Group.List
import Mathlib.Algebra.Order.Group.Nat
import Mathlib.Data.List.Nodup
import ScopedMethods.Slots

/-!
# Tables with distinct keys

Look-up, membership and sums over the values of a table.
-/

set_option autoImplicit false

namespace ScopedMethods.Slots

variable {κ α : Type} [DecidableEq κ]

def Distinct (s : Slots κ α) : Prop := s.keys.Nodup

/-- The sum of a weight over all values. -/
def total (f : α → Nat) (s : Slots κ α) : Nat := (s.map fun p => f p.2).sum

theorem mem_of_get? {k : κ} {v : α} {s : Slots κ α} (h : get? k s = some v) : (k, v) ∈ s := by
  induction s with
  | nil => simp [get?] at h
  | cons p s ih =>
    by_cases hk : p.1 = k
    · have hv : p.2 = v := by simpa [get?, hk] using h
      subst hk hv
      exact List.mem_cons_self
    · exact List.mem_cons_of_mem _ (ih (by simpa [get?, hk] using h))

theorem mem_keys_of_get? {k : κ} {v : α} {s : Slots κ α} (h : get? k s = some v) :
    k ∈ s.keys :=
  List.mem_map.2 ⟨_, mem_of_get? h, rfl⟩

theorem get?_eq_none {k : κ} {s : Slots κ α} (h : k ∉ s.keys) : get? k s = none := by
  cases hg : get? k s with
  | none => rfl
  | some v => exact absurd (mem_keys_of_get? hg) h

theorem get?_of_mem {k : κ} {v : α} {s : Slots κ α} (hd : Distinct s) (h : (k, v) ∈ s) :
    get? k s = some v := by
  induction s with
  | nil => simp at h
  | cons p s ih =>
    obtain ⟨hp, hs⟩ := List.nodup_cons.1 hd
    rcases List.mem_cons.1 h with rfl | h
    · simp [get?]
    · have hk : p.1 ≠ k := fun e => hp (e ▸ List.mem_map.2 ⟨_, h, rfl⟩)
      simpa [get?, hk] using ih hs h

theorem get?_set_cases {k j : κ} {v x : α} {s : Slots κ α} (h : get? j (set k v s) = some x) :
    (k = j ∧ v = x) ∨ (k ≠ j ∧ get? j s = some x) := by
  rw [get?_set] at h
  by_cases hk : k = j
  · rw [if_pos hk] at h
    exact Or.inl ⟨hk, Option.some.inj h⟩
  · rw [if_neg hk] at h
    exact Or.inr ⟨hk, h⟩

theorem get?_of_erase {k j : κ} {x : α} {s : Slots κ α} (h : get? j (erase k s) = some x) :
    k ≠ j ∧ get? j s = some x := by
  rw [get?_erase] at h
  by_cases hk : k = j
  · rw [if_pos hk] at h
    cases h
  · rw [if_neg hk] at h
    exact ⟨hk, h⟩

theorem mem_keys_set {k j : κ} {v : α} {s : Slots κ α} :
    j ∈ (set k v s).keys ↔ j = k ∨ j ∈ s.keys := by
  induction s with
  | nil => simp [set, keys]
  | cons p s ih =>
    have ih' : (∃ x, (j, x) ∈ set k v s) ↔ j = k ∨ ∃ x, (j, x) ∈ s := by simpa [keys] using ih
    by_cases hk : p.1 = k
    · simp [set, keys, hk]
    · simp only [set, keys, hk, if_false, List.map_cons, List.mem_cons] at ih ⊢
      rw [ih]
      tauto

omit [DecidableEq κ] in
theorem distinct_nil : Distinct ([] : Slots κ α) := List.nodup_nil

theorem distinct_set (k : κ) (v : α) {s : Slots κ α} (hd : Distinct s) : Distinct (set k v s) := by
  induction s with
  | nil => simp [Distinct, set, keys]
  | cons p s ih =>
    obtain ⟨hp, hs⟩ := List.nodup_cons.1 hd
    by_cases hk : p.1 = k
    · subst hk
      simpa [Distinct, set, keys] using hd
    · have hn : p.1 ∉ (set k v s).keys := fun h => (mem_keys_set.1 h).elim hk hp
      simp only [Distinct, set, hk, if_false, keys, List.map_cons]
      exact List.nodup_cons.2 ⟨hn, ih hs⟩

theorem set_set (k : κ) (v x : α) (s : Slots κ α) : set k x (set k v s) = set k x s := by
  induction s with
  | nil => simp [set]
  | cons p s ih => by_cases hk : p.1 = k <;> simp [set, hk, ih]

theorem erase_eq_filter (k : κ) (s : Slots κ α) : erase k s = s.filter (fun p => p.1 ≠ k) := by
  induction s with
  | nil => rfl
  | cons p s ih => by_cases hk : p.1 = k <;> simp [erase, hk, ih]

theorem mem_keys_erase {k j : κ} {s : Slots κ α} : j ∈ (erase k s).keys ↔ j ≠ k ∧ j ∈ s.keys := by
  rw [erase_eq_filter]
  simp only [keys, List.mem_map, List.mem_filter, decide_eq_true_eq]
  constructor
  · rintro ⟨p, ⟨hp, hne⟩, rfl⟩
    exact ⟨hne, p, hp, rfl⟩
  · rintro ⟨hne, p, hp, rfl⟩
    exact ⟨p, ⟨hp, hne⟩, rfl⟩

theorem distinct_erase (k : κ) {s : Slots κ α} (hd : Distinct s) : Distinct (erase k s) := by
  rw [erase_eq_filter]
  exact (List.filter_sublist.map Prod.fst).nodup hd

theorem total_set (f : α → Nat) (k : κ) (v : α) (s : Slots κ α) :
    total f (set k v s) + (get? k s).elim 0 f = total f s + f v := by
  induction s with
  | nil => simp [total, set, get?]
  | cons p s ih =>
    by_cases hk : p.1 = k
    · simp [total, set, get?, hk]; omega
    · simp only [total, set, get?, hk, if_false, List.map_cons, List.sum_cons] at ih ⊢
      omega

theorem total_erase (f : α → Nat) (k : κ) {s : Slots κ α} (hd : Distinct s) :
    total f (erase k s) + (get? k s).elim 0 f = total f s := by
  induction s with
  | nil => simp [total, erase, get?]
  | cons p s ih =>
    obtain ⟨hp, hs⟩ := List.nodup_cons.1 hd
    have ih' := ih hs
    by_cases hk : p.1 = k
    · subst hk
      rw [get?_eq_none hp] at ih'
      simp only [total, erase, get?, if_true, List.map_cons, List.sum_cons] at ih' ⊢
      simp only [Option.elim] at ih' ⊢
      omega
    · simp only [total, erase, get?, hk, if_false, List.map_cons, List.sum_cons] at ih' ⊢
      omega

omit [DecidableEq κ] in
theorem total_congr {f g : α → Nat} {s : Slots κ α} (h : ∀ p ∈ s, f p.2 = g p.2) :
    total f s = total g s := by
  unfold total
  rw [List.map_congr_left h]

omit [DecidableEq κ] in
theorem total_eq_zero {f : α → Nat} {s : Slots κ α} (h : ∀ p ∈ s, f p.2 = 0) : total f s = 0 :=
  List.sum_eq_zero fun n hn => by
    obtain ⟨p, hp, rfl⟩ := List.mem_map.1 hn
    exact h p hp

omit [DecidableEq κ] in
theorem total_pos {f : α → Nat} {s : Slots κ α} (h : 0 < total f s) : ∃ p ∈ s, 0 < f p.2 := by
  by_contra hn
  have h0 : total f s = 0 :=
    total_eq_zero fun p hp => Nat.eq_zero_of_not_pos fun hpos => hn ⟨p, hp, hpos⟩
  exact absurd h0 (Nat.ne_of_gt h)

theorem total_set_congr {f g : α → Nat} {k : κ} {v : α} {s : Slots κ α} (hd : Distinct s)
    (hv : get? k s = some v) (h : ∀ p ∈ s, p.1 ≠ k → f p.2 = g p.2) (x : α) :
    total f (set k x s) + g v = total g s + f x := by
  have h1 := total_set f k x s
  have h2 := total_erase f k hd
  have h3 := total_erase g k hd
  have h4 : total f (erase k s) = total g (erase k s) := by
    apply total_congr
    intro p hp
    rw [erase_eq_filter, List.mem_filter] at hp
    exact h p hp.1 (by simpa using hp.2)
  rw [hv] at h1 h2 h3
  simp only [Option.elim] at h1 h2 h3
  omega

theorem le_total {f : α → Nat} {k : κ} {v : α} {s : Slots κ α} (h : get? k s = some v) :
    f v ≤ total f s :=
  List.le_sum_of_mem (List.mem_map.2 ⟨(k, v), mem_of_get? h, rfl⟩)

end ScopedMethods.Slots

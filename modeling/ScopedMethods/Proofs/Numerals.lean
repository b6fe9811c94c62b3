import Mathlib.Algebra.Order.Group.Nat

/-!
# Decimal numerals

A number written with so many decimal digits. The numerals of one length stand in the
order of their numbers.
-/

set_option autoImplicit false

namespace ScopedMethods.Decimal

/-- The last so many decimal digits of a number. -/
def written : Nat → Nat → List Char
  | 0, _ => []
  | w + 1, n => written w (n / 10) ++ [(n % 10).digitChar]

theorem length_written (w n : Nat) : (written w n).length = w := by
  induction w generalizing n with
  | zero => rfl
  | succ w ih => simp [written, ih]

theorem isDigit_of_mem_written {w n : Nat} {c : Char} (h : c ∈ written w n) : c.isDigit = true := by
  induction w generalizing n with
  | zero => cases h
  | succ w ih =>
    rcases List.mem_append.1 h with h | h
    · exact ih h
    · rw [List.mem_singleton.1 h, Nat.isDigit_digitChar]
      exact decide_eq_true (Nat.mod_lt n (by omega))

theorem written_zero (w : Nat) : written w 0 = List.replicate w '0' := by
  induction w with
  | zero => rfl
  | succ w ih =>
    rw [List.replicate_succ', ← ih]
    rfl

theorem written_eq_toDigits {w n : Nat} (hw : 0 < w) (hn : n < 10 ^ w) :
    written w n = List.replicate (w - (Nat.toDigits 10 n).length) '0' ++ Nat.toDigits 10 n := by
  induction w generalizing n with
  | zero => omega
  | succ w ih =>
    by_cases hlt : n < 10
    · have hdiv : n / 10 = 0 := by omega
      have hmod : n % 10 = n := by omega
      rw [written, hdiv, hmod, written_zero, Nat.toDigits_of_lt_base hlt]
      rfl
    · have hpow : n / 10 < 10 ^ w := by
        rw [Nat.pow_succ] at hn
        omega
      have hpos : 0 < w := by
        by_contra h0
        have h0 : w = 0 := by omega
        subst h0
        omega
      rw [written, ih hpos hpow, Nat.toDigits_of_base_le (by omega) (Nat.not_lt.1 hlt),
        List.length_append, List.length_singleton, Nat.add_sub_add_right, List.append_assoc]

theorem digitChar_lt {a b : Nat} (hab : a < b) (hb : b < 10) : a.digitChar < b.digitChar := by
  rw [Char.lt_def, UInt32.lt_iff_toNat_lt]
  have h1 := Nat.toNat_digitChar_of_lt_ten (hab.trans hb)
  have h2 := Nat.toNat_digitChar_of_lt_ten hb
  show a.digitChar.toNat < b.digitChar.toNat
  omega

theorem append_lt_append {xs ys : List Char} (h : xs < ys) (hl : xs.length = ys.length)
    (s t : List Char) : xs ++ s < ys ++ t := by
  induction xs generalizing ys with
  | nil =>
    obtain rfl := List.length_eq_zero_iff.1 hl.symm
    cases h
  | cons x xs ih =>
    cases ys with
    | nil => cases hl
    | cons y ys =>
      rw [List.cons_append, List.cons_append, List.cons_lt_cons_iff]
      rcases List.cons_lt_cons_iff.1 h with hlt | ⟨rfl, hrest⟩
      · exact Or.inl hlt
      · exact Or.inr ⟨rfl, ih hrest (Nat.succ.inj hl)⟩

theorem written_lt {w a b : Nat} (hab : a < b) (hb : b < 10 ^ w) : written w a < written w b := by
  induction w generalizing a b with
  | zero =>
    rw [Nat.pow_zero] at hb
    omega
  | succ w ih =>
    rw [written, written]
    by_cases hdiv : a / 10 = b / 10
    · rw [hdiv]
      apply List.append_left_lt
      exact List.cons_lt_cons_iff.2 (Or.inl (digitChar_lt (by omega) (Nat.mod_lt b (by omega))))
    · have hpow : b / 10 < 10 ^ w := by
        rw [Nat.pow_succ] at hb
        omega
      apply append_lt_append (ih (by omega) hpow)
      rw [length_written, length_written]

end ScopedMethods.Decimal

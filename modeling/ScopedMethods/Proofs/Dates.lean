import Mathlib.Tactic.IntervalCases
import Mathlib.Tactic.Ring
import ScopedMethods.Calendar

/-!
# Dates

The calendar by its rules: which years have a leap day, how long the months are, and how
many days lie before a date. The date of a day is a date of the calendar with that many days
before it.
-/

set_option autoImplicit false

namespace ScopedMethods.Calendar

def IsLeap (year : Nat) : Prop := year % 4 = 0 ∧ (year % 100 = 0 → year % 400 = 0)

instance (year : Nat) : Decidable (IsLeap year) :=
  inferInstanceAs (Decidable (year % 4 = 0 ∧ (year % 100 = 0 → year % 400 = 0)))

def monthLength (year month : Nat) : Nat :=
  if month = 2 then if IsLeap year then 29 else 28
  else if month ∈ [4, 6, 9, 11] then 30
  else 31

def beforeMonth (year : Nat) : Nat → Nat
  | 0 => 0
  | 1 => 0
  | month + 2 => beforeMonth year (month + 1) + monthLength year (month + 1)

def beforeYear : Nat → Nat
  | 0 => 0
  | year + 1 => beforeYear year + beforeMonth year 13

/-- The days from the beginning of 1970 to a date. -/
def dayNumber (year month day : Nat) : Int :=
  (beforeYear year + beforeMonth year month + day : Nat) - (beforeYear 1970 + 1 : Nat)

section Rules

theorem beforeMonth_thirteen (year : Nat) :
    beforeMonth year 13 = if IsLeap year then 366 else 365 := by
  by_cases h : IsLeap year <;> simp [beforeMonth, monthLength, h]

theorem beforeYear_succ (year : Nat) :
    beforeYear (year + 1) = 365 * year + year / 4 - year / 100 + year / 400 + 366 := by
  induction year with
  | zero => rfl
  | succ year ih =>
    rw [beforeYear, ih, beforeMonth_thirteen]
    by_cases h : IsLeap (year + 1)
    · rw [if_pos h]
      unfold IsLeap at h
      omega
    · rw [if_neg h]
      unfold IsLeap at h
      omega

theorem beforeYear_ge (year : Nat) : 365 * year ≤ beforeYear year := by
  cases year with
  | zero => exact Nat.zero_le _
  | succ year =>
    rw [beforeYear_succ]
    omega

theorem beforeYear_epoch : beforeYear 1970 = 719528 := beforeYear_succ 1969

theorem beforeMonth_fromMarch (year : Nat) {p : Nat} (hp : p ≤ 10) :
    beforeMonth year (p + 3) = beforeMonth year 3 + (153 * p + 2) / 5 := by
  interval_cases p <;> simp [beforeMonth, monthLength]

theorem beforeYear_march (year : Nat) :
    beforeYear year + beforeMonth year 3 =
      365 * year + year / 4 - year / 100 + year / 400 + 60 := by
  have hyear := beforeYear_succ year
  rw [beforeYear, beforeMonth_fromMarch year (Nat.le_refl 10)] at hyear
  omega

theorem beforeMonth_le (year : Nat) {m m' : Nat} (h : m ≤ m') :
    beforeMonth year m ≤ beforeMonth year m' := by
  induction m', h using Nat.le_induction with
  | base => exact Nat.le_refl _
  | succ m' _ ih =>
    cases m' with
    | zero => exact ih
    | succ m' => exact ih.trans (Nat.le_add_right _ _)

theorem beforeYear_le {y y' : Nat} (h : y ≤ y') : beforeYear y ≤ beforeYear y' := by
  induction y', h using Nat.le_induction with
  | base => exact Nat.le_refl _
  | succ y' _ ih => exact ih.trans (Nat.le_add_right _ _)

theorem dayNumber_lt_day {y m d d' : Nat} (h : d < d') : dayNumber y m d < dayNumber y m d' := by
  unfold dayNumber
  omega

theorem dayNumber_lt_month {y m m' d d' : Nat} (h : m < m') (hm : 1 ≤ m)
    (hd : d ≤ monthLength y m) (hd' : 1 ≤ d') : dayNumber y m d < dayNumber y m' d' := by
  have hle := beforeMonth_le y (show m + 1 ≤ m' from h)
  have hnext : beforeMonth y (m + 1) = beforeMonth y m + monthLength y m := by
    obtain ⟨k, rfl⟩ := Nat.exists_eq_succ_of_ne_zero (Nat.ne_of_gt hm)
    rfl
  unfold dayNumber
  omega

theorem dayNumber_lt_year {y y' m m' d d' : Nat} (h : y < y') (hm : 1 ≤ m) (hm' : m ≤ 12)
    (hd : d ≤ monthLength y m) (hd' : 1 ≤ d') : dayNumber y m d < dayNumber y' m' d' := by
  have hend := dayNumber_lt_month (show m < 13 by omega) hm hd (Nat.le_refl 1)
  have hle := beforeYear_le (show y + 1 ≤ y' from h)
  rw [beforeYear] at hle
  unfold dayNumber at *
  omega

end Rules

section Eras

/-- The centuries, cycles of four years, years and days that make up a day of an era. Only
the last year of a cycle has a leap day, but of the cycles at the end of a century only that
of the last. -/
structure InEra (c q k j : Nat) : Prop where
  century : c ≤ 3
  cycle : q ≤ 24
  year : k ≤ 3
  day : j ≤ 365
  last : j = 365 → k = 3 ∧ (q = 24 → c = 3)

variable {c q k j : Nat}

theorem exists_inEra {d : Nat} (h : d < 146097) :
    ∃ c q k j, InEra c q k j ∧ d = 36524 * c + 1461 * q + 365 * k + j := by
  have hc : ∃ c r, d = 36524 * c + r ∧ c ≤ 3 ∧ r ≤ 36524 ∧ (r = 36524 → c = 3) := by
    by_cases hlast : d = 146096
    · exact ⟨3, 36524, by omega⟩
    · exact ⟨d / 36524, d % 36524, by omega⟩
  obtain ⟨c, r, hd, hc, hr, hlast⟩ := hc
  have hk : ∃ k j, r % 1461 = 365 * k + j ∧ k ≤ 3 ∧ j ≤ 365 ∧ (j = 365 → k = 3) := by
    by_cases hleap : r % 1461 = 1460
    · exact ⟨3, 365, by omega⟩
    · exact ⟨r % 1461 / 365, r % 1461 % 365, by omega⟩
  obtain ⟨k, j, hs, hk, hj, hleap⟩ := hk
  exact ⟨c, r / 1461, k, j, ⟨hc, by omega, hk, hj, fun h => ⟨hleap h, by omega⟩⟩, by omega⟩

theorem InEra.yearOfEra (h : InEra c q k j) {d : Int}
    (hd : d = 36524 * c + 1461 * q + 365 * k + j) :
    (d - d / 1460 + d / 36524 - d / 146096) / 365 = 100 * c + 4 * q + k := by
  obtain ⟨hc, hq, hk, hj, hlast⟩ := h
  have hcycle : d / 1460 = 25 * c + q ∨ d / 1460 = 25 * c + q + 1 ∧ 1 ≤ j := by omega
  have hera : d / 36524 - d / 146096 = c := by
    by_cases hend : d = 146096
    · omega
    · have hr : 1461 * q + 365 * k + j < 36524 := by omega
      omega
  rcases hcycle with h | ⟨h, hj⟩ <;> rw [h] <;> omega

theorem InEra.dayOfYear (h : InEra c q k j) {d y : Int}
    (hd : d = 36524 * c + 1461 * q + 365 * k + j) (hy : y = 100 * c + 4 * q + k) :
    d - (365 * y + y / 4 - y / 100) = j := by
  obtain ⟨hc, hq, hk, -, -⟩ := h
  have h4 : y / 4 = 25 * c + q := by omega
  have h100 : y / 100 = c := by omega
  rw [h4, h100]
  omega

theorem InEra.isLeap (h : InEra c q k 365) (e : Nat) :
    IsLeap (400 * e + 100 * c + 4 * q + k + 1) := by
  obtain ⟨-, hq, -, -, hlast⟩ := h
  obtain ⟨rfl, hend⟩ := hlast rfl
  unfold IsLeap
  refine ⟨by omega, fun hcentury => ?_⟩
  have hq : q = 24 := by omega
  have hc : c = 3 := hend hq
  omega

theorem InEra.beforeMarch (h : InEra c q k j) (e : Nat) {y : Nat}
    (hy : y = 400 * e + 100 * c + 4 * q + k) :
    365 * y + y / 4 - y / 100 + y / 400 = 146097 * e + 36524 * c + 1461 * q + 365 * k := by
  obtain ⟨hc, hq, hk, -, -⟩ := h
  have h4 : y / 4 = 100 * e + 25 * c + q := by omega
  have h100 : y / 100 = 4 * e + c := by omega
  have h400 : y / 400 = e := by omega
  rw [h4, h100, h400, hy]
  omega

end Eras

theorem dayNumber_fromMarch {Y j p : Nat} (hj : j ≤ 365) (hleap : j = 365 → IsLeap (Y + 1))
    (hp : (5 * j + 2) / 153 = p) :
    ∃ y m d : Nat, (m = if p < 10 then p + 3 else p - 9) ∧ (y = if m ≤ 2 then Y + 1 else Y) ∧
      d + (153 * p + 2) / 5 = j + 1 ∧ 1 ≤ m ∧ m ≤ 12 ∧ 1 ≤ d ∧ d ≤ monthLength y m ∧
      dayNumber y m d = (365 * Y + Y / 4 - Y / 100 + Y / 400 + j : Nat) - 719468 := by
  have hmarch := beforeYear_march Y
  have hp11 : p ≤ 11 := by omega
  refine ⟨_, _, j + 1 - (153 * p + 2) / 5, rfl, rfl, by omega, ?_⟩
  rw [dayNumber, beforeYear_epoch]
  by_cases h : p < 10
  · have hm : ¬ p + 3 ≤ 2 := by omega
    have hbefore := beforeMonth_fromMarch Y (Nat.le_of_lt h)
    have hnext : beforeMonth Y (p + 3) + monthLength Y (p + 3) =
        beforeMonth Y 3 + (153 * (p + 1) + 2) / 5 := beforeMonth_fromMarch Y h
    rw [if_pos h, if_neg hm]
    omega
  · have hyear := beforeYear_succ Y
    have hjanuary : monthLength (Y + 1) 1 = 31 := by simp [monthLength]
    have hcase : p = 10 ∨ p = 11 := by omega
    rcases hcase with rfl | rfl
    · have hbefore : beforeMonth (Y + 1) 1 = 0 := rfl
      show 1 ≤ 1 ∧ 1 ≤ 12 ∧ 1 ≤ j + 1 - 306 ∧ j + 1 - 306 ≤ monthLength (Y + 1) 1 ∧
        ((beforeYear (Y + 1) + beforeMonth (Y + 1) 1 + (j + 1 - 306) : Nat) : Int) - 719529 = _
      rw [hbefore, hjanuary]
      omega
    · have hbefore : beforeMonth (Y + 1) 2 = 31 := by rw [beforeMonth, hjanuary, beforeMonth]
      have hlength : j < 365 ∧ 28 ≤ monthLength (Y + 1) 2 ∨ monthLength (Y + 1) 2 = 29 := by
        by_cases hl : IsLeap (Y + 1)
        · exact Or.inr (by simp [monthLength, hl])
        · exact Or.inl ⟨Nat.lt_of_le_of_ne hj fun h => hl (hleap h), by simp [monthLength, hl]⟩
      show 1 ≤ 2 ∧ 2 ≤ 12 ∧ 1 ≤ j + 1 - 337 ∧ j + 1 - 337 ≤ monthLength (Y + 1) 2 ∧
        ((beforeYear (Y + 1) + beforeMonth (Y + 1) 2 + (j + 1 - 337) : Nat) : Int) - 719529 = _
      rw [hbefore]
      omega

/-- The date of a day is a date of the calendar with that many days before it. -/
theorem dateOfDay_eq {n : Int} (h : -719468 ≤ n) :
    ∃ y m d : Nat, dateOfDay n = ⟨y, m, d⟩ ∧ 1 ≤ m ∧ m ≤ 12 ∧ 1 ≤ d ∧ d ≤ monthLength y m ∧
      dayNumber y m d = n := by
  obtain ⟨z, hz⟩ := Int.eq_ofNat_of_zero_le (show 0 ≤ n + 719468 by omega)
  obtain ⟨c, q, k, j, hera, hd⟩ := exists_inEra (Nat.mod_lt z (by decide : 0 < 146097))
  obtain ⟨e, he⟩ : ∃ e, z / 146097 = e := ⟨_, rfl⟩
  obtain ⟨p, hp⟩ : ∃ p, (5 * j + 2) / 153 = p := ⟨_, rfl⟩
  have hleap : j = 365 → IsLeap (400 * e + 100 * c + 4 * q + k + 1) := by
    rintro rfl
    exact hera.isLeap e
  obtain ⟨y, m, d, hm, hy, hdm, hm1, hm12, hd1, hdl, hnumber⟩ :=
    dayNumber_fromMarch hera.day hleap hp
  refine ⟨y, m, d, ?_, hm1, hm12, hd1, hdl, ?_⟩
  · have hd' : (z : Int) % 146097 = 36524 * c + 1461 * q + 365 * k + j := by exact_mod_cast hd
    have he' : (z : Int) / 146097 = e := by exact_mod_cast he
    have hp' : (5 * (j : Int) + 2) / 153 = p := by exact_mod_cast hp
    have hmonth : (m : Int) = if (p : Int) < 10 then (p : Int) + 3 else (p : Int) - 9 := by
      clear * - hm hm1
      split_ifs at hm ⊢ <;> omega
    have hyear : (y : Int) = if (m : Int) ≤ 2 then 100 * (c : Int) + 4 * q + k + 400 * e + 1
        else 100 * (c : Int) + 4 * q + k + 400 * e := by
      clear * - hy
      split_ifs at hy ⊢ <;> omega
    have hday : (d : Int) = j - (153 * p + 2) / 5 + 1 := by
      clear * - hdm
      omega
    simp only [dateOfDay, hz, he', hera.yearOfEra hd', hera.dayOfYear hd' rfl, hp']
    rw [← hmonth, ← hyear, ← hday]
  · have hn : n = z - 719468 := by omega
    have hz' : z = 146097 * e + (36524 * c + 1461 * q + 365 * k + j) := by
      rw [← he, ← hd, Nat.div_add_mod]
    rw [hnumber, hera.beforeMarch e rfl, hn, hz']
    push_cast
    ring

end ScopedMethods.Calendar

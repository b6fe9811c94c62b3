import Mathlib.Data.String.Basic
import ScopedMethods.Proofs.Dates
import ScopedMethods.Proofs.Numerals

/-!
# Time stamps

A stamp of the usual form gives a date, a time of day and six digits of a second, and so
denotes a microsecond. Stamps of the form stand in the order of what they denote. From the
epoch on every time has such a stamp, and it denotes the microsecond that the time falls
into. Before the epoch the second and the fraction count toward it from different sides.
-/

set_option autoImplicit false

namespace ScopedMethods.Calendar

structure Moment where
  year : Nat
  month : Nat
  day : Nat
  hour : Nat
  minute : Nat
  second : Nat
  year_lt : year < 10000
  month_pos : 1 ≤ month
  month_le : month ≤ 12
  day_pos : 1 ≤ day
  day_le : day ≤ monthLength year month
  hour_lt : hour < 24
  minute_lt : minute < 60
  second_lt : second < 60

namespace Moment

def seconds (m : Moment) : Int :=
  86400 * dayNumber m.year m.month m.day + (3600 * m.hour + 60 * m.minute + m.second : Nat)

def text (m : Moment) : List Char :=
  Decimal.written 4 m.year ++ '-' :: (Decimal.written 2 m.month ++ '-' ::
    (Decimal.written 2 m.day ++ ' ' :: (Decimal.written 2 m.hour ++ ':' ::
      (Decimal.written 2 m.minute ++ ':' :: Decimal.written 2 m.second))))

def fields (m : Moment) : List Nat := [m.year, m.month, m.day, m.hour, m.minute, m.second]

end Moment

/-- A text of the form that denotes so many microseconds from the epoch. -/
def Stamped (text : String) (micros : Int) : Prop :=
  ∃ (m : Moment) (u : Nat), u < 10 ^ 6 ∧
    text.toList = m.text ++ '.' :: Decimal.written 6 u ∧ micros = 10 ^ 6 * m.seconds + u

section Order

variable {a b : Moment}

theorem monthLength_le (y m : Nat) : monthLength y m ≤ 31 := by
  unfold monthLength
  split_ifs <;> omega

theorem Moment.ext_fields (h : a.fields = b.fields) : a = b := by
  cases a
  cases b
  simp_all [Moment.fields]

theorem Moment.seconds_lt (h : a.fields < b.fields) : a.seconds < b.seconds := by
  simp only [Moment.fields, List.cons_lt_cons_iff, List.lt_irrefl, and_false, or_false] at h
  have ha := a.second_lt
  have ha' := a.minute_lt
  have ha'' := a.hour_lt
  have hdays : dayNumber a.year a.month a.day < dayNumber b.year b.month b.day ∨
      a.year = b.year ∧ a.month = b.month ∧ a.day = b.day ∧ (a.hour < b.hour ∨ a.hour = b.hour ∧
        (a.minute < b.minute ∨ a.minute = b.minute ∧ a.second < b.second)) := by
    rcases h with hy | ⟨hy, hm | ⟨hm, hd | hrest⟩⟩
    · exact Or.inl (dayNumber_lt_year hy a.month_pos a.month_le a.day_le b.day_pos)
    · rw [← hy]
      exact Or.inl (dayNumber_lt_month hm a.month_pos a.day_le b.day_pos)
    · rw [← hy, ← hm]
      exact Or.inl (dayNumber_lt_day hd)
    · exact Or.inr ⟨hy, hm, hrest⟩
  unfold Moment.seconds
  rcases hdays with hdays | ⟨hy, hm, hd, htime⟩
  · omega
  · rw [hy, hm, hd]
    omega

theorem written_append_lt {w m n : Nat} (h : m < n) (hn : n < 10 ^ w) (s t : List Char) :
    Decimal.written w m ++ s < Decimal.written w n ++ t :=
  Decimal.append_lt_append (Decimal.written_lt h hn)
    ((Decimal.length_written w m).trans (Decimal.length_written w n).symm) s t

theorem written_cons_lt {w m n : Nat} {c : Char} {s t : List Char} (h : m < n ∨ m = n ∧ s < t)
    (hn : n < 10 ^ w) : Decimal.written w m ++ c :: s < Decimal.written w n ++ c :: t := by
  rcases h with hlt | ⟨rfl, hrest⟩
  · exact written_append_lt hlt hn _ _
  · exact List.append_left_lt (List.cons_lt_cons_iff.2 (Or.inr ⟨rfl, hrest⟩))

theorem Moment.text_lt (h : a.fields < b.fields) (s t : List Char) : a.text ++ s < b.text ++ t := by
  have hday := b.day_le.trans (monthLength_le b.year b.month)
  have hmonth := b.month_le
  have hhour := b.hour_lt
  have hminute := b.minute_lt
  have hsecond := b.second_lt
  simp only [Moment.fields, List.cons_lt_cons_iff, List.lt_irrefl, and_false, or_false] at h
  simp only [Moment.text, List.append_assoc, List.cons_append]
  refine written_cons_lt (h.imp_right (And.imp_right fun h => ?_)) b.year_lt
  refine written_cons_lt (h.imp_right (And.imp_right fun h => ?_)) (by omega)
  refine written_cons_lt (h.imp_right (And.imp_right fun h => ?_)) (by omega)
  refine written_cons_lt (h.imp_right (And.imp_right fun h => ?_)) (by omega)
  refine written_cons_lt (h.imp_right (And.imp_right fun h => ?_)) (by omega)
  exact written_append_lt h (by omega) _ _

theorem Stamped.lt {x y : String} {s t : Int} (hx : Stamped x s) (hy : Stamped y t) (h : s < t) :
    x < y := by
  obtain ⟨a, u, hu, hxa, hs⟩ := hx
  obtain ⟨b, v, hv, hyb, ht⟩ := hy
  rw [String.lt_iff_toList_lt, hxa, hyb]
  rcases lt_trichotomy a.fields b.fields with hlt | heq | hgt
  · exact Moment.text_lt hlt _ _
  · obtain rfl := Moment.ext_fields heq
    have huv : u < v := by omega
    exact List.append_left_lt (List.cons_lt_cons_iff.2 (Or.inr ⟨rfl, Decimal.written_lt huv hv⟩))
  · have hlt := Moment.seconds_lt hgt
    omega

theorem Stamped.unique {x : String} {s t : Int} (hs : Stamped x s) (ht : Stamped x t) : s = t := by
  rcases lt_trichotomy s t with h | h | h
  · exact absurd (hs.lt ht h) (String.lt_irrefl x)
  · exact h
  · exact absurd (ht.lt hs h) (String.lt_irrefl x)

theorem Stamped.eq {x y : String} {t : Int} (hx : Stamped x t) (hy : Stamped y t) : x = y := by
  obtain ⟨a, u, hu, hxa, hs⟩ := hx
  obtain ⟨b, v, hv, hyb, ht⟩ := hy
  rcases lt_trichotomy a.fields b.fields with hlt | heq | hgt
  · have hlt := Moment.seconds_lt hlt
    omega
  · obtain rfl := Moment.ext_fields heq
    have huv : u = v := by omega
    rw [← String.toList_inj, hxa, hyb, huv]
  · have hlt := Moment.seconds_lt hgt
    omega

theorem Stamped.le {x y : String} {s t : Int} (hx : Stamped x s) (hy : Stamped y t) (h : s ≤ t) :
    x ≤ y := by
  rcases h.lt_or_eq with hlt | rfl
  · exact (hx.lt hy hlt).le
  · exact (hx.eq hy).le

end Order

section Text

theorem toList_padded {w n : Nat} (hw : 0 < w) (hn : n < 10 ^ w) :
    (padded w n).toList = Decimal.written w n := by
  have hpos : ¬ (n : Int) < 0 := by omega
  rw [Decimal.written_eq_toDigits hw hn, padded]
  simp [hpos]

theorem toList_padded_neg {u : Nat} (hpos : 0 < u) (hu : u < 10 ^ 6) :
    (padded 6 (-(u : Int))).toList = '-' :: Decimal.written (if u < 10 ^ 5 then 5 else 6) u := by
  have hneg : -(u : Int) < 0 := by omega
  have hlen := Nat.length_toDigits_le_iff (b := 10) (n := u) (k := 5) (by omega) (by omega)
  simp only [padded, hneg, if_true, Int.natAbs_neg, Int.natAbs_natCast, String.toList_ofList]
  by_cases h : u < 10 ^ 5
  · rw [if_pos h, Decimal.written_eq_toDigits (by omega) h]
    have hzeros : 6 - (['-'].length + (Nat.toDigits 10 u).length) =
        5 - (Nat.toDigits 10 u).length := by
      rw [List.length_singleton]
      omega
    rw [hzeros]
    rfl
  · rw [if_neg h, Decimal.written_eq_toDigits (by omega) hu]
    have hlong : ¬ (Nat.toDigits 10 u).length ≤ 5 := fun hle => h (hlen.1 hle)
    have hzeros : 6 - (['-'].length + (Nat.toDigits 10 u).length) = 0 ∧
        6 - (Nat.toDigits 10 u).length = 0 := by
      rw [List.length_singleton]
      omega
    rw [hzeros.1, hzeros.2]
    rfl

theorem dateTime_eq {s : Int} (hs : s.natAbs < 10 ^ 10) :
    ∃ m : Moment, m.seconds = s ∧ (dateTime s).toList = m.text := by
  obtain ⟨y, m, d, hdate, hm1, hm12, hd1, hd, hnumber⟩ :=
    dateOfDay_eq (n := s / 86400) (by omega)
  have hy : y < 10000 := by
    have hle := beforeYear_ge y
    rw [dayNumber, beforeYear_epoch] at hnumber
    omega
  obtain ⟨t, ht⟩ := Int.eq_ofNat_of_zero_le (show 0 ≤ s % 86400 by omega)
  refine ⟨⟨y, m, d, t / 3600, t / 60 % 60, t % 60, hy, hm1, hm12, hd1, hd, by omega, by omega,
    by omega⟩, ?_, ?_⟩
  · simp only [Moment.seconds, hnumber]
    omega
  · have hmonth := hd.trans (monthLength_le y m)
    have hhour : (t : Int) / 3600 = (t / 3600 : Nat) := rfl
    have hminute : (t : Int) / 60 % 60 = (t / 60 % 60 : Nat) := rfl
    have hsecond : (t : Int) % 60 = (t % 60 : Nat) := rfl
    simp only [dateTime, hdate, ht, hhour, hminute, hsecond]
    simp only [toString, String.toList_append, Moment.text]
    rw [toList_padded (by omega) hy, toList_padded (by omega) (by omega : m < 10 ^ 2),
      toList_padded (by omega) (by omega : d < 10 ^ 2),
      toList_padded (by omega) (by omega : t / 3600 < 10 ^ 2),
      toList_padded (by omega) (by omega : t / 60 % 60 < 10 ^ 2),
      toList_padded (by omega) (by omega : t % 60 < 10 ^ 2)]
    simp

theorem Moment.length_text (m : Moment) : m.text.length = 19 := by
  simp [Moment.text, Decimal.length_written]

end Text

section Times

/-- A time in nanoseconds that has a stamp of the form: one from the epoch on, or one whose
microsecond is a whole second. -/
def InForm (ns : Int) : Prop := 0 ≤ ns ∨ 10 ^ 6 ∣ ns.tdiv 1000

instance (ns : Int) : Decidable (InForm ns) :=
  inferInstanceAs (Decidable (0 ≤ ns ∨ 10 ^ 6 ∣ ns.tdiv 1000))

def Signed (text : String) (second micros : Int) : Prop :=
  ∃ (m : Moment) (u : Nat), m.seconds = second ∧ micros = -u ∧ 0 < u ∧ u < 10 ^ 6 ∧
    text.toList = m.text ++ '.' :: '-' :: Decimal.written (if u < 10 ^ 5 then 5 else 6) u

variable {ns : Int}

theorem Signed.not_stamped {x : String} {second micros : Int} (h : Signed x second micros)
    (t : Int) : ¬ Stamped x t := by
  rintro ⟨m, u, -, hm, -⟩
  obtain ⟨m', u', -, -, -, -, hm'⟩ := h
  have hlen := m'.length_text.trans m.length_text.symm
  obtain ⟨-, hrest⟩ := List.append_inj (hm'.symm.trans hm) hlen
  have hminus : '-' ∈ Decimal.written 6 u := by
    rw [← (List.cons.inj hrest).2]
    exact List.mem_cons_self
  exact absurd (Decimal.isDigit_of_mem_written hminus) (by decide)

theorem stamp_eq (h : ns.natAbs ≤ 2 ^ 63) :
    ∃ m : Moment, m.seconds = ns.tdiv 1000000000 ∧
      (stamp ns).toList = m.text ++ '.' :: (padded 6 ((ns.tdiv 1000).tmod 1000000)).toList := by
  have hs : (ns.tdiv 1000000000).natAbs < 10 ^ 10 := by
    rw [Int.natAbs_tdiv]
    show ns.natAbs / 1000000000 < 10 ^ 10
    omega
  obtain ⟨m, hm, htext⟩ := dateTime_eq hs
  refine ⟨m, hm, ?_⟩
  rw [← htext]
  simp [stamp, toString]

theorem tdiv_cases (ns : Int) : ∃ k : Nat,
    (ns = k ∧ ns.tdiv 1000000000 = (k / 1000000000 : Nat) ∧ ns.tdiv 1000 = (k / 1000 : Nat) ∧
        (ns.tdiv 1000).tmod 1000000 = (k / 1000 % 1000000 : Nat)) ∨
      (ns = -k ∧ 0 < k ∧ ns.tdiv 1000000000 = -(k / 1000000000 : Nat) ∧
        ns.tdiv 1000 = -(k / 1000 : Nat) ∧
        (ns.tdiv 1000).tmod 1000000 = -(k / 1000 % 1000000 : Nat)) := by
  refine ⟨ns.natAbs, ?_⟩
  rcases lt_or_ge ns 0 with hneg | hpos
  · obtain ⟨k, rfl⟩ := Int.exists_eq_neg_ofNat hneg.le
    right
    simp only [Int.natAbs_neg, Int.natAbs_natCast, Int.neg_tdiv, Int.neg_tmod, true_and]
    exact ⟨by omega, rfl, rfl, rfl⟩
  · obtain ⟨k, rfl⟩ := Int.eq_ofNat_of_zero_le hpos
    exact Or.inl ⟨rfl, rfl, rfl, rfl⟩

theorem stamped_stamp (h : ns.natAbs ≤ 2 ^ 63) (hform : InForm ns) :
    Stamped (stamp ns) (ns.tdiv 1000) := by
  obtain ⟨m, hm, htext⟩ := stamp_eq h
  obtain ⟨k, ⟨hns, hsecond, hmicros, hrest⟩ | ⟨hns, hk, hsecond, hmicros, hrest⟩⟩ := tdiv_cases ns
  · refine ⟨m, k / 1000 % 1000000, by omega, ?_, by omega⟩
    rw [htext, hrest, toList_padded (by omega) (by omega)]
  · have hwhole : k / 1000 % 1000000 = 0 := by
      rcases hform with hpos | hdvd
      · omega
      · omega
    refine ⟨m, 0, by omega, ?_, by omega⟩
    rw [htext, hrest, hwhole]
    rfl

theorem signed_stamp (h : ns.natAbs ≤ 2 ^ 63) (hform : ¬ InForm ns) :
    Signed (stamp ns) (ns.tdiv 1000000000) ((ns.tdiv 1000).tmod 1000000) := by
  obtain ⟨m, hm, htext⟩ := stamp_eq h
  unfold InForm at hform
  obtain ⟨k, ⟨hns, -⟩ | ⟨hns, hk, hsecond, hmicros, hrest⟩⟩ := tdiv_cases ns
  · omega
  · have hpos : 0 < k / 1000 % 1000000 := by omega
    refine ⟨m, k / 1000 % 1000000, hm, hrest, hpos, by omega, ?_⟩
    rw [htext, hrest, toList_padded_neg hpos (by omega)]

theorem inForm_and_floor_iff :
    InForm ns ∧ ns / 1000 = ns.tdiv 1000 ↔ 0 ≤ ns ∨ 10 ^ 9 ∣ ns := by
  unfold InForm
  obtain ⟨k, ⟨hns, -, hmicros, -⟩ | ⟨hns, hk, -, hmicros, -⟩⟩ := tdiv_cases ns <;> omega

end Times

theorem natAbs_toInt_le (ns : Int64) : ns.toInt.natAbs ≤ 2 ^ 63 := by
  have hle := ns.le_toInt
  have hlt := ns.toInt_lt
  omega

/-- A stamp of the form denotes the microsecond of its time, cut off toward the epoch. That is
the microsecond which the time falls into exactly from the epoch on and at whole seconds
before it. Any other stamp has a sign among its digits. Among those of the form, that of a
later time is never the smaller one. -/
theorem stamps_read (ns : Int64) :
    (∀ t, Stamped (stamp ns.toInt) t ↔ InForm ns.toInt ∧ t = ns.toInt.tdiv 1000) ∧
    (Stamped (stamp ns.toInt) (ns.toInt / 1000) ↔ 0 ≤ ns.toInt ∨ 10 ^ 9 ∣ ns.toInt) ∧
    (¬ InForm ns.toInt →
      Signed (stamp ns.toInt) (ns.toInt.tdiv (10 ^ 9)) ((ns.toInt.tdiv 1000).tmod (10 ^ 6))) ∧
    ∀ later : Int64, ns ≤ later → InForm ns.toInt → InForm later.toInt →
      stamp ns.toInt ≤ stamp later.toInt := by
  have hiff : ∀ t, Stamped (stamp ns.toInt) t ↔ InForm ns.toInt ∧ t = ns.toInt.tdiv 1000 := by
    intro t
    by_cases hform : InForm ns.toInt
    · have hstamped := stamped_stamp (natAbs_toInt_le ns) hform
      exact ⟨fun ht => ⟨hform, ht.unique hstamped⟩, fun ⟨_, ht⟩ => ht ▸ hstamped⟩
    · have hsigned := signed_stamp (natAbs_toInt_le ns) hform
      exact iff_of_false (hsigned.not_stamped t) fun h => hform h.1
  refine ⟨hiff, (hiff _).trans inForm_and_floor_iff, signed_stamp (natAbs_toInt_le ns), ?_⟩
  intro later hle hform hform'
  have hcut := Int.tdiv_le_tdiv (by omega : (0 : Int) < 1000) (Int64.le_iff_toInt_le.1 hle)
  exact (stamped_stamp (natAbs_toInt_le ns) hform).le
    (stamped_stamp (natAbs_toInt_le later) hform') hcut

/-- Five microseconds before the epoch the fraction has a sign and five digits. -/
theorem not_every_stamped :
    stamp (-5000) = "1970-01-01 00:00:00.-00005" ∧
    ¬ ∀ ns : Int64, Stamped (stamp ns.toInt) (ns.toInt / 1000) ∧
      ∀ later : Int64, ns ≤ later → stamp ns.toInt ≤ stamp later.toInt := by
  refine ⟨by decide +kernel, fun h => ?_⟩
  have hform : ¬ InForm (-5000) := by decide
  exact (signed_stamp (by decide) hform).not_stamped _ (h (-5000)).1

end ScopedMethods.Calendar

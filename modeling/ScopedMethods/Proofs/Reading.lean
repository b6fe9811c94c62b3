import Mathlib.Data.List.Forall2
import Mathlib.Data.List.Induction
import Mathlib.Data.List.TakeWhile
import ScopedMethods.Log.Severity
import ScopedMethods.Proofs.Numerals

/-!
# Reading words

A read takes the longest run of word characters and nothing more. What the run denotes,
by number or by name in any letter case, is what is read; anything else reads as the
fallback. So a list of printed values reads back, value by value, and past its end
nothing is left to take. Numbers are those that the integer type of the values takes
from a text; a type of one byte takes characters instead.
-/

set_option autoImplicit false

namespace ScopedMethods.Text

def IsWordChar (c : Char) : Prop := c.isAlphanum = true ∨ c = '_'

instance (c : Char) : Decidable (IsWordChar c) :=
  inferInstanceAs (Decidable (c.isAlphanum = true ∨ c = '_'))

/-- Bytes that write a number in decimal, with any number of zeros in front. -/
def Writes (word : List UInt8) (n : Nat) : Prop :=
  0 < word.length ∧ n < 10 ^ word.length ∧ wordChars word = Decimal.written word.length n

/-- Among words the conversion takes the decimal numbers up to the greatest one of its type,
as it does for every integer type but those of characters. -/
def Conversion.Decimal (convert : Conversion) (greatest : Nat) : Prop :=
  ∀ word, (∀ b ∈ word, isWordByte b = true) → ∀ n,
    convert word = some n ↔ Writes word n ∧ n ≤ greatest

/-- A beginning that holds word characters only and cannot be longer. -/
structure Munch (input word rest : List UInt8) : Prop where
  whole : word ++ rest = input
  word : ∀ b ∈ word, IsWordChar (Char.ofNat b.toNat)
  maximal : ∀ b ∈ rest.head?, ¬ IsWordChar (Char.ofNat b.toNat)

namespace Naming

end Naming

section Characters

theorem forall_byte {P : UInt8 → Prop} (h : ∀ n < 256, P (UInt8.ofNat n)) (b : UInt8) : P b := by
  have hb := h b.toNat b.toNat_lt
  rwa [UInt8.ofNat_toNat] at hb

theorem isWordByte_iff (b : UInt8) :
    isWordByte b = true ↔ IsWordChar (Char.ofNat b.toNat) :=
  forall_byte (P := fun b => isWordByte b = true ↔ IsWordChar (Char.ofNat b.toNat))
    (by decide +kernel) b

end Characters

section Words

variable {word : List UInt8} {name : String} {n : Nat}

theorem Munch.unique {input rest : List UInt8} (h : Munch input word rest) :
    input.takeWhile isWordByte = word ∧ input.dropWhile isWordByte = rest := by
  have hw : ∀ b ∈ word, isWordByte b = true := fun b hb => (isWordByte_iff b).2 (h.word b hb)
  have hr : rest.takeWhile isWordByte = [] ∧ rest.dropWhile isWordByte = rest := by
    cases rest with
    | nil => exact ⟨rfl, rfl⟩
    | cons b rest =>
      have hb : isWordByte b = false := by
        rw [← Bool.not_eq_true, isWordByte_iff]
        exact h.maximal b rfl
      simp [hb]
  rw [← h.whole, List.takeWhile_append_of_pos hw, List.dropWhile_append_of_pos hw, hr.1, hr.2,
    List.append_nil]
  exact ⟨rfl, rfl⟩

end Words

namespace Naming

variable {names : Naming} {numbers : Bool} {word : List UInt8} {v : Nat}

theorem meaning?_of_digit {convert : Conversion} {b : UInt8} (hb : isDigitByte b = true) :
    names.meaning? convert true (b :: word) = some v ↔
      convert (b :: word) = some v ∧ v < names.length := by
  rw [meaning?, hb, Bool.true_and, if_pos rfl]
  cases convert (b :: word) with
  | none => simp
  | some n =>
    simp only [Option.some_inj]
    split
    · rename_i hle
      refine iff_of_false (fun hn => nomatch hn) ?_
      rintro ⟨rfl, hlt⟩
      omega
    · rename_i hlt
      rw [Option.some_inj]
      refine ⟨?_, And.left⟩
      rintro rfl
      exact ⟨rfl, Nat.lt_of_not_le hlt⟩

theorem read_munch {convert : Conversion} {input rest : List UInt8}
    (hm : Munch input word rest) (fallback : Nat) :
    names.readAs convert fallback numbers input =
      ((names.meaning? convert numbers word).getD fallback, rest) := by
  rw [readAs, hm.unique.1, hm.unique.2]

/-- Where a value is held in one byte, a digit by itself reads as the number of its character
and a longer run that starts with a digit as nothing: no value is read by its number unless
the enumeration reaches up to the digits. -/
theorem byte_read {b : UInt8} {input rest : List UInt8} (hm : Munch input (b :: word) rest)
    (hb : isDigitByte b = true) (fallback : Nat) :
    names.readAs .byte fallback true input =
      (if word = [] ∧ b.toNat < names.length then b.toNat else fallback, rest) := by
  rw [read_munch hm]
  refine Prod.ext ?_ rfl
  split
  · rename_i h
    obtain ⟨rfl, hlt⟩ := h
    rw [(meaning?_of_digit hb).2 ⟨rfl, hlt⟩]
    rfl
  · rename_i h
    have hnone : names.meaning? .byte true (b :: word) = none := by
      apply Option.eq_none_iff_forall_ne_some.2
      intro v hv
      obtain ⟨hbyte, hlt⟩ := (meaning?_of_digit hb).1 hv
      cases word with
      | nil => exact h ⟨rfl, Option.some.inj hbyte ▸ hlt⟩
      | cons => cases hbyte
    rw [hnone]
    rfl

example : readAs .byte ["A", "B", "C"] 2 true [49] = (2, []) := by decide

end Naming

end ScopedMethods.Text

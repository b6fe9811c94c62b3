/-!
# Significant digits

A binary floating-point number in decimal, correctly rounded to a number of
significant digits, and the general format that drops trailing zeros and goes
over to an exponent outside a range.
-/

set_option autoImplicit false

namespace ScopedMethods.Decimal

def tens (n : Nat) : Nat := Nat.pow 10 n

def twos (n : Nat) : Nat := Nat.pow 2 n

def digitCount (n : Nat) : Nat := (Nat.toDigits 10 n).length

/-- The quotient to the nearest integer, a tie going to the even one. -/
def roundDiv (num den : Nat) : Nat :=
  let q := num / den
  let r := num % den
  if 2 * r < den then q
  else if den < 2 * r then q + 1
  else if q % 2 = 0 then q else q + 1

def roundScaled (num den : Nat) (e : Int) : Nat :=
  if 0 ≤ e then roundDiv (num * tens e.toNat) den else roundDiv num (den * tens (-e).toNat)

def leadingExponent (num den : Nat) : Int :=
  let e : Int := (digitCount num : Int) - digitCount den
  let reaches := if 0 ≤ e then den * tens e.toNat ≤ num else den ≤ num * tens (-e).toNat
  if reaches then e else e - 1

def significant (places : Nat) (num den : Nat) : Nat × Int :=
  let e := leadingExponent num den
  let d := roundScaled num den ((places : Int) - 1 - e)
  if d = tens places then (tens (places - 1), e + 1) else (d, e)

def dropZeros (digits : List Char) : List Char :=
  (digits.reverse.dropWhile (· == '0')).reverse

def withPoint (whole fraction : List Char) : List Char :=
  match dropZeros fraction with
  | [] => whole
  | f => whole ++ '.' :: f

def exponentText (e : Int) : List Char :=
  let digits := Nat.toDigits 10 e.natAbs
  let sign := if e < 0 then '-' else '+'
  'e' :: sign :: (List.replicate (2 - digits.length) '0' ++ digits)

/-- Positional from exponent -4 up to the number of places, else one digit,
the fraction and an exponent of at least two digits. -/
def general (places : Nat) (num den : Nat) : List Char :=
  if num = 0 then ['0']
  else
    let (d, e) := significant places num den
    let digits := Nat.toDigits 10 d
    if e < -4 || (places : Int) ≤ e then
      withPoint (digits.take 1) (digits.drop 1) ++ exponentText e
    else if e < 0 then
      withPoint ['0'] (List.replicate ((-e).toNat - 1) '0' ++ digits)
    else withPoint (digits.take (e.toNat + 1)) (digits.drop (e.toNat + 1))

/-- A double with seventeen places, which tell any two doubles apart. -/
def ofFloat (x : Float) : String :=
  let bits : Nat := x.toBits.toNat
  let sign := if twos 63 ≤ bits then "-" else ""
  let exponent : Nat := bits / twos 52 % 2048
  let fraction : Nat := bits % twos 52
  if exponent = 2047 then sign ++ (if fraction = 0 then "inf" else "nan")
  else
    let mantissa := if exponent = 0 then fraction else fraction + twos 52
    let power : Int := (max exponent 1 : Nat) - 1075
    let digits :=
      if 0 ≤ power then general 17 (mantissa * twos power.toNat) 1
      else general 17 mantissa (twos (-power).toNat)
    sign ++ String.ofList digits

end ScopedMethods.Decimal

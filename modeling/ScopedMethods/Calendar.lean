/-!
# Calendar

The proleptic Gregorian calendar and the stamp of a time in a log line.
-/

set_option autoImplicit false

namespace ScopedMethods.Calendar

structure Date where
  year : Int
  month : Int
  day : Int
deriving DecidableEq, Repr

/-- The date of a day counted from 1970-01-01. Years are taken to start in
March here, so that a leap day ends its year, and to repeat every 146097 days. -/
def dateOfDay (n : Int) : Date :=
  let z := n + 719468
  let era := z / 146097
  let dayOfEra := z % 146097
  let yearOfEra :=
    (dayOfEra - dayOfEra / 1460 + dayOfEra / 36524 - dayOfEra / 146096) / 365
  let dayOfYear := dayOfEra - (365 * yearOfEra + yearOfEra / 4 - yearOfEra / 100)
  let monthFromMarch := (5 * dayOfYear + 2) / 153
  let day := dayOfYear - (153 * monthFromMarch + 2) / 5 + 1
  let month := if monthFromMarch < 10 then monthFromMarch + 3 else monthFromMarch - 9
  let year := yearOfEra + 400 * era
  ⟨if month ≤ 2 then year + 1 else year, month, day⟩

/-- Decimal text, zeros going between the sign and the digits up to a width
that counts the sign. -/
def padded (width : Nat) (n : Int) : String :=
  let digits := Nat.toDigits 10 n.natAbs
  let sign := if n < 0 then ['-'] else []
  let zeros := List.replicate (width - (sign.length + digits.length)) '0'
  String.ofList (sign ++ zeros ++ digits)

def dateTime (second : Int) : String :=
  let d := dateOfDay (second / 86400)
  let t := second % 86400
  s!"{padded 4 d.year}-{padded 2 d.month}-{padded 2 d.day} " ++
    s!"{padded 2 (t / 3600)}:{padded 2 (t / 60 % 60)}:{padded 2 (t % 60)}"

/-- The stamp of a time in nanoseconds from the epoch. The second and the
microsecond are each cut off toward zero. -/
def stamp (ns : Int) : String :=
  s!"{dateTime (ns.tdiv 1000000000)}.{padded 6 ((ns.tdiv 1000).tmod 1000000)}"

end ScopedMethods.Calendar

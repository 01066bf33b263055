import WordAssembler.Text.Numeral

/-!
Dates of the proleptic Gregorian calendar, to the second, as a header shows them.
-/

set_option autoImplicit false

namespace WordAssembler

/-- A moment: months and days are counted from 1. -/
structure Date where
  year : Int
  month : Nat
  day : Nat
  hour : Nat
  minute : Nat
  second : Nat
deriving DecidableEq, Repr

namespace Date

/-- The first moment of year 1. -/
def first : Date := ⟨1, 1, 1, 0, 0, 0⟩

/-- Every fourth year is a leap year, but of the full centuries only every fourth. -/
def isLeap (year : Int) : Bool := year % 4 == 0 && (year % 100 != 0 || year % 400 == 0)

def monthLengths (year : Int) : List Nat :=
  [31, if isLeap year then 29 else 28, 31, 30, 31, 30, 31, 31, 30, 31, 30, 31]

/-- The number of the day in its year, from 1. -/
def yearDay (date : Date) : Nat :=
  ((monthLengths date.year).take (date.month - 1)).foldl (· + ·) date.day

/-- Year and day of the year, then hour, minute and second: `YYYYDDD,HH,MM,SS`. -/
def text (date : Date) : Bytes :=
  Numeral.padded 4 date.year ++ Numeral.padded 3 date.yearDay ++
    [byte ','] ++ Numeral.padded 2 date.hour ++ [byte ','] ++ Numeral.padded 2 date.minute ++
    [byte ','] ++ Numeral.padded 2 date.second

end Date

end WordAssembler

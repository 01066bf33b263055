import WordAssembler.Text.Numeral

/-!
Names of coded values. The values of an enumeration have names; a code with no value in it is named
by the enumeration and the code in parentheses.
-/

set_option autoImplicit false

namespace WordAssembler

/-- The name of a code outside an enumeration, such as `Kind(99)`. -/
def unlisted (enumeration : String) (code : Int) : Bytes :=
  ascii enumeration ++ [byte '('] ++ Numeral.decimal code ++ [byte ')']

/-- The value of a code, counted from 0 in the order of an enumeration. -/
def listed? {α : Type} (values : List α) (code : Int) : Option α :=
  if 0 ≤ code then values[code.toNat]? else none

end WordAssembler

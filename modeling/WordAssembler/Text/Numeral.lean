import WordAssembler.Text.Bytes

/-!
Numerals: digits of a natural number in a base up to sixteen, and the decimal numerals of integers.
Readers accept exactly the digit runs of their base, of any length; a caller that stores the number
in a fixed width checks its range.
-/

set_option autoImplicit false

namespace WordAssembler.Numeral

/-- The digit of a value below sixteen, letters in upper case. -/
def digit (value : Nat) : UInt8 :=
  if value < 10 then UInt8.ofNat (48 + value) else UInt8.ofNat (55 + value)

/-- The value of a digit, letters in either case. -/
def digitValue? (b : UInt8) : Option Nat :=
  if byte '0' ≤ b ∧ b ≤ byte '9' then some (b.toNat - 48)
  else if byte 'A' ≤ b ∧ b ≤ byte 'F' then some (b.toNat - 55)
  else if byte 'a' ≤ b ∧ b ≤ byte 'f' then some (b.toNat - 87)
  else none

/-- Writes the digits of `value` before `after`; `fuel` bounds their number. -/
def digitsBefore (base : Nat) : Nat → Nat → Bytes → Bytes
  | 0, _, after => after
  | fuel + 1, value, after =>
    if value < base then digit value :: after
    else digitsBefore base fuel (value / base) (digit (value % base) :: after)

/-- The digits of a natural number, most significant first, with no leading zero. -/
def digits (base value : Nat) : Bytes := digitsBefore base (value + 1) value []

/-- The number that a nonempty run of digits of the base denotes. -/
def read? (base : Nat) : Bytes → Option Nat
  | [] => none
  | run => run.foldl (fun value? b =>
      match value?, digitValue? b with
      | some value, some d => if d < base then some (value * base + d) else none
      | _, _ => none) (some 0)

def decimal : Int → Bytes
  | .ofNat n => digits 10 n
  | .negSucc n => byte '-' :: digits 10 (n + 1)

/-- A decimal numeral filled with zeros, after its sign, to a total width. -/
def padded (width : Nat) : Int → Bytes
  | .ofNat n => (digits 10 n).leftpad width (byte '0')
  | .negSucc n => byte '-' :: (digits 10 (n + 1)).leftpad (width - 1) (byte '0')

/-- Digits with a comma before each full group of three that has a digit on its left. -/
def groupDigits (run : Bytes) : Bytes :=
  ((run.reverse.zipIdx.flatMap fun (d, place) =>
    if place ≠ 0 ∧ place % 3 = 0 then [byte ',', d] else [d])).reverse

/-- A decimal numeral with a comma between groups of three digits. -/
def grouped : Int → Bytes
  | .ofNat n => groupDigits (digits 10 n)
  | .negSucc n => byte '-' :: groupDigits (digits 10 (n + 1))

def powerOfTwo (bits : Nat) : Nat := Nat.pow 2 bits

/-- Integers of the assembler's arithmetic are 64 bits wide, two's complement. -/
def fitsInteger (value : Int) : Bool :=
  decide (-(powerOfTwo 63 : Int) ≤ value) && decide (value < powerOfTwo 63)

/-- The 64-bit integer that an exact result wraps to. -/
def wrap (value : Int) : Int := value.bmod (powerOfTwo 64)

/-- Reads an optional sign and a nonempty run of decimal digits, if the value fits 64 bits. -/
def readInteger? (text : Bytes) : Option Int :=
  let value? := match text with
    | [] => none
    | b :: rest =>
      if b = byte '-' then (read? 10 rest).map fun n => -(n : Int)
      else if b = byte '+' then (read? 10 rest).map Int.ofNat
      else (read? 10 text).map Int.ofNat
  value?.filter fitsInteger

end WordAssembler.Numeral

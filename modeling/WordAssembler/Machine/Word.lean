import WordAssembler.Text.Blank
import WordAssembler.Text.Numeral

/-!
Words of the machine: sixteen bits, ten of them an address, in a memory of 1024 words. This module
holds their two's complement reading and the hexadecimal and binary numerals of records and
listings.
-/

set_option autoImplicit false

namespace WordAssembler

abbrev Word := BitVec 16

namespace Word

def bits : Nat := 16

def lastAddress : Int := 1023

/-- The largest integer a word holds in two's complement. -/
def largest : Int := 32767

/-- Bit counts that the two's complement conversions accept. -/
def isWidth (digits : Int) : Bool := 2 ≤ digits && digits ≤ 32

/-- Converts between a number and its two's complement encoding in a bit count: a negative number
becomes its encoding, an encoding of a negative number becomes that number, and a number that
encodes itself is unchanged. A number outside both ranges converts to 0. -/
def convert (number digits : Int) : Int :=
  if isWidth digits then
    let half : Int := Numeral.powerOfTwo (digits.toNat - 1)
    if 0 ≤ number ∧ number < half then number
    else if -half ≤ number ∧ number < 0 then 2 * half + number
    else if half ≤ number ∧ number < 2 * half then number - 2 * half
    else 0
  else 0

/-- A number that the bit count holds, as a signed value or as an encoding. -/
def inRange (number digits : Int) : Bool :=
  isWidth digits && decide (-(Numeral.powerOfTwo (digits.toNat - 1) : Int) ≤ number) &&
    decide (number < Numeral.powerOfTwo digits.toNat)

/-- Field widths beyond a million are refused. -/
def widestField : Nat := 1000000

/-- Puts a numeral in a field: zeros on its left for a positive width, spaces on its right for a
negative one. A width out of bounds is marked and leaves the numeral as it is. -/
def inField (width : Int) (sign numeral : Bytes) : Bytes :=
  if width.natAbs > widestField then ascii "%!(BADWIDTH)" ++ sign ++ numeral
  else if width < 0 then (sign ++ numeral).rightpad width.natAbs (byte ' ')
  else sign ++ numeral.leftpad (width.toNat - sign.length) (byte '0')

/-- The hexadecimal numeral of the low sixteen bits of a value, in a field. -/
def hex (value width : Int) : Bytes :=
  inField width [] (Numeral.digits 16 (value % 65536).toNat)

/-- The low bits of a 64-bit value; 64 bits and more leave the value as it is. -/
def lowBits (value : Int) (count : Nat) : Int :=
  if count < 64 then value % Numeral.powerOfTwo count else value

/-- Why a binary numeral cannot be written. -/
inductive BinaryError where
  | negativeWidth
deriving DecidableEq, Repr

def BinaryError.message : BinaryError → Bytes
  | .negativeWidth => ascii "runtime error: negative shift amount"

/-- The binary numeral of the low bits of a value, one digit per bit. -/
def binaryDigits (value : Int) (width : Nat) : Bytes :=
  let low := lowBits value width
  inField width (if low < 0 then [byte '-'] else []) (Numeral.digits 2 low.natAbs)

/-- The binary numeral of the low bits of a value, for a width that is not negative. -/
def binary (value width : Int) : Except BinaryError Bytes :=
  if width < 0 then .error .negativeWidth else .ok (binaryDigits value width.toNat)

/-- Why a numeral cannot be read. -/
inductive NumeralError where
  | hex (text : Bytes)
  | binary (text : Bytes)
deriving DecidableEq, Repr

def NumeralError.message : NumeralError → Bytes
  | .hex text => ascii "'" ++ text ++ ascii "' is not a hex number"
  | .binary text => ascii "'" ++ text ++ ascii "' is not a binary number"

/-- Reads a numeral of at most 32 bits. -/
def readUnsigned? (base : Nat) (text : Bytes) : Option Nat :=
  (Numeral.read? base text).filter (· < Numeral.powerOfTwo 32)

/-- Reads a hexadecimal numeral, with white space around it, as a two's complement encoding. -/
def parseHex (text : Bytes) (digits : Int) : Except NumeralError Int :=
  match readUnsigned? 16 text.trim with
  | some value => .ok (convert value digits)
  | none => .error (.hex text)

def parseBinary (text : Bytes) : Except NumeralError Int :=
  match readUnsigned? 2 text with
  | some value => .ok value
  | none => .error (.binary text)

/-- The word that a value is stored in: its low sixteen bits. -/
def ofInt (value : Int) : Word := BitVec.ofInt 16 value

/-- The value of a word as an unsigned number. -/
def toInt (word : Word) : Int := word.toNat

end Word

end WordAssembler

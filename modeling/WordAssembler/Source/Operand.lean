import WordAssembler.Machine.Word
import WordAssembler.Source.Token

/-!
Operands. An operand is absent, a symbol, a decimal number, an expression, or a literal of one of
four forms: `X=` hexadecimal, `B=` binary, `I=` signed decimal, `C=` one or two characters between
single quotes. Numbers and literals have a value of sixteen bits as soon as they are read.
-/

set_option autoImplicit false

namespace WordAssembler

namespace Operand

/-- The form of an operand. -/
inductive Kind where
  | none
  | symbol
  | number
  | expression
  | hex
  | binary
  | integer
  | char
  | malformed
deriving DecidableEq, Repr

namespace Kind

/-- The forms, in the order of their codes. -/
def all : List Kind :=
  [.none, .symbol, .number, .expression, .hex, .binary, .integer, .char, .malformed]

def name : Kind → Bytes
  | .none => ascii "none"
  | .symbol => ascii "symbol"
  | .number => ascii "number"
  | .expression => ascii "expression"
  | .hex => ascii "X="
  | .binary => ascii "B="
  | .integer => ascii "I="
  | .char => ascii "C="
  | .malformed => ascii "malformed"

/-- The form of a code; an operand with any other code is malformed. -/
def ofCode (code : Int) : Kind := (listed? all code).getD .malformed

def nameOfCode (code : Int) : Bytes :=
  ((listed? all code).map name).getD (unlisted "OperandKind" code)

/-- The four literal forms. -/
def isLiteral : Kind → Bool
  | .hex | .binary | .integer | .char => true
  | _ => false

/-- The forms with a value of their own. -/
def isNumeric (kind : Kind) : Bool := kind == .number || kind.isLiteral

end Kind

end Operand

/-- An operand as written, its form, and its value if it has one. -/
structure Operand where
  text : Bytes
  kind : Operand.Kind
  value : Int
deriving DecidableEq, Repr

namespace Operand

def absent : Operand := ⟨[], .none, 0⟩

def largestWord : Int := 65535

/-- The value of the digits of an `X=` literal. -/
def hexValue? (body : Bytes) : Option Int :=
  match Word.parseHex body 32 with
  | .ok value => if 0 ≤ value ∧ Word.inRange value Word.bits then some value else none
  | .error _ => none

/-- The value of the digits of a `B=` literal. -/
def binaryValue? (body : Bytes) : Option Int :=
  match Word.parseBinary body with
  | .ok value => if Word.inRange value Word.bits then some value else none
  | .error _ => none

/-- The word of the signed number of an `I=` literal. -/
def integerValue? (body : Bytes) : Option Int :=
  match Numeral.readInteger? body with
  | some value =>
    if Word.inRange value Word.bits ∧ value ≤ Word.largest then
      some (if value < 0 then Word.convert value Word.bits else value)
    else none
  | none => none

/-- The word of the characters of a `C=` literal, the first in its high half. -/
def charValue? (body : Bytes) : Option Int :=
  match body with
  | [left, high, right] =>
    if left = byte '\'' ∧ right = byte '\'' then some (high.toNat * 256) else none
  | [left, high, low, right] =>
    if left = byte '\'' ∧ right = byte '\'' then some (high.toNat * 256 + low.toNat)
    else none
  | _ => none

/-- The form and value of a literal that starts with a letter and has the body after its sign. -/
def literal? (letter : UInt8) (body : Bytes) : Option (Kind × Int) :=
  if letter = byte 'X' ∨ letter = byte 'x' then (hexValue? body).map (Kind.hex, ·)
  else if letter = byte 'B' ∨ letter = byte 'b' then (binaryValue? body).map (Kind.binary, ·)
  else if letter = byte 'I' ∨ letter = byte 'i' then (integerValue? body).map (Kind.integer, ·)
  else if letter = byte 'C' ∨ letter = byte 'c' then (charValue? body).map (Kind.char, ·)
  else none

/-- The form and value of a literal's text. -/
def literalOf (text : Bytes) : Kind × Int :=
  match text with
  | letter :: _ :: body => (literal? letter body).getD (.malformed, 0)
  | _ => (.malformed, 0)

/-- The form and value of a decimal number's text. -/
def numberOf (text : Bytes) : Kind × Int :=
  match Numeral.readInteger? text with
  | some value => if value ≤ largestWord then (.number, value) else (.malformed, 0)
  | none => (.malformed, 0)

/-- The operand that a token stands for. -/
def ofToken (token : Token) : Operand :=
  match token.kind with
  | .empty | .comment => absent
  | .label => ⟨token.text, .symbol, 0⟩
  | .expression => ⟨token.text, .expression, 0⟩
  | .number => ⟨token.text, (numberOf token.text).1, (numberOf token.text).2⟩
  | .literal => ⟨token.text, (literalOf token.text).1, (literalOf token.text).2⟩
  | .error => ⟨token.text, .malformed, 0⟩

end Operand

end WordAssembler

import WordAssembler.Diagnostic.Key
import WordAssembler.Expression.Stack

/-!
Expressions as written: terms joined by `+` and `-`, and their reduction from left to right in
64-bit arithmetic.
-/

set_option autoImplicit false

namespace WordAssembler.Expression

/-- The operators of expressions. -/
def isOperator (b : UInt8) : Bool := b == byte '+' || b == byte '-'

/-- The parts of an expression: its terms, and the operators between them. -/
structure Terms where
  operands : List Bytes
  operators : Bytes
deriving DecidableEq, Repr

/-- Takes an expression apart. Empty terms are dropped; at most `limit` operators are allowed, and
there must be one operator fewer than terms. -/
def split (expression : Bytes) (limit : Int) : Except Key Terms :=
  let operands := (pieces isOperator expression).filter (!·.isEmpty)
  let operators := expression.filter isOperator
  if limit < (operands.length : Int) - 1 then .error .tooManyOperators
  else if (operators.length : Int) ≠ (operands.length : Int) - 1 then .error .operatorCount
  else .ok ⟨operands, operators⟩

/-- Applies an operator; any other byte keeps the left value. -/
def apply (operator : UInt8) (left right : Int) : Int :=
  if operator = byte '+' then Numeral.wrap (left + right)
  else if operator = byte '-' then Numeral.wrap (left - right)
  else left

/-- Applies operators to the two values on top of a stack, the topmost on the left, while there are
two; the value on top at the end is the result. -/
def collapse : List UInt8 → Stack Int → Int
  | operator :: operators, values =>
    match values.pop? with
    | some (left, values') =>
      match values'.pop? with
      | some (right, below) => collapse operators (below.push (apply operator left right))
      | none => left
    | none => 0
  | [], values => values.peek?.getD 0

/-- Reduces values from left to right with the operators between them. -/
def reduce (values : List Int) (operators : List UInt8) : Int :=
  collapse (Stack.ofList operators).items (Stack.ofList values)

end WordAssembler.Expression

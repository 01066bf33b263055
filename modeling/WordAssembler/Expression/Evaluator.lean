import WordAssembler.Expression.Terms
import WordAssembler.Machine.Word
import WordAssembler.ObjectFile.Record
import WordAssembler.Source.Token
import WordAssembler.Symbol.Table

/-!
Evaluation of expressions. Operand expressions stand in instructions and are the location counter
`*`, alone or with one term. Equates give a symbol its value. Address constants may name external
symbols. A result is a number together with its dependence on where the program is loaded: a count
of relocatable contributions for an equate, and otherwise the adjustments that the linker makes.
-/

set_option autoImplicit false

namespace WordAssembler.Expression

/-- What expressions refer to: the symbols of a program, and its name. -/
structure Evaluator where
  symbols : Symbol.Table
  program : Bytes

def star : Bytes := [byte '*']

def number? (term : Bytes) : Option Int :=
  if Token.kindOf term = .number then Numeral.readInteger? term else none

/-- Values of an expression are addresses. -/
def isAddress (value : Int) : Bool := 0 ≤ value && value ≤ Word.lastAddress

/-- The lengths that a label may have. -/
def isLabelLength (label : Bytes) : Bool := 2 ≤ label.length && label.length ≤ 32

/-- The sum of relocatable contributions, in 64-bit arithmetic. -/
def countMore (relocations more : Int) : Int := Numeral.wrap (relocations + more)

namespace Evaluator

/-- The address of the program, added or subtracted. -/
def ownAdjustment (ev : Evaluator) (positive : Bool) : Adjustment := ⟨positive, ev.program⟩

/-! ### Operand expressions -/

/-- The value of the term after an operator, and the adjustments it needs besides that of `*`. -/
def operandTerm (ev : Evaluator) (operator : UInt8) (term : Bytes) :
    Except Key (Int × List Adjustment) :=
  match Token.kindOf term with
  | .number =>
    match number? term with
    | some value => if value ≤ Word.lastAddress then .ok (value, []) else .error .expressionRange
    | none => .error .expressionRange
  | .label =>
    if isLabelLength term then
      match ev.symbols.get? term with
      | none => .error .undefined
      | some symbol =>
        if symbol.usage = .equated then .ok (symbol.value, [])
        else if symbol.isLocal then
          .ok (symbol.address, [ev.ownAdjustment (operator == byte '+')])
        else .error .operandUsage
    else .error .labelLength
  | _ => if term = star then .error .starPosition else .error .expressionRange

/-- The value of `*` combined with a term at a location. -/
def operandAfterStar (ev : Evaluator) (location : Int) : Bytes → Except Key (Int × List Adjustment)
  | [] => .error .badOperator
  | operator :: term =>
    if operator = byte '*' then .error .starPosition
    else if isOperator operator then
      match ev.operandTerm operator term with
      | .error key => .error key
      | .ok (operand, adjustments) =>
        let value := reduce [location, operand] [operator]
        if isAddress value then .ok (value, ev.ownAdjustment true :: adjustments)
        else .error .expressionRange
    else .error .badOperator

/-- Evaluates an operand expression at a location to its value and its adjustments. -/
def operand (ev : Evaluator) (expression : Bytes) (location : Int) :
    Except Key (Int × List Adjustment) :=
  if expression = star then .ok (location, [ev.ownAdjustment true])
  else
    match split expression 1 with
    | .error key => .error key
    | .ok _ =>
      match expression with
      | first :: rest =>
        if first = byte '*' then ev.operandAfterStar location rest else .error .noStar
      | [] => .error .noStar

/-! ### Equates -/

/-- The value of an equate, and how often the load address is added into it. -/
structure Equate where
  value : Int
  relocations : Int
deriving DecidableEq, Repr

/-- Why an equate has no value, and the contributions counted before that was found. -/
structure EquateFault where
  key : Key
  counted : Int
deriving DecidableEq, Repr

/-- The value of a term of an equate, and its relocatable contributions. -/
def equateTerm (ev : Evaluator) (location : Int) (isFirst : Bool) (term : Bytes) :
    Except Key Equate :=
  if term = star then
    if isFirst then .ok ⟨location, 1⟩ else .error .starPosition
  else
    match ev.symbols.get? term with
    | some symbol =>
      if symbol.usage = .equated then .ok ⟨symbol.value, symbol.relocations⟩
      else if symbol.isLocal then .ok ⟨symbol.address, 1⟩
      else .error .equateUsage
    | none =>
      match number? term with
      | some value => .ok ⟨value, 0⟩
      | none => .error .undefined

/-- The values of terms after those already in `values`, latest first, with the contributions of
all of them. -/
def equateTerms (ev : Evaluator) (location : Int) (values : List Int) (counted : Int) :
    List Bytes → Except EquateFault (List Int × Int)
  | [] => .ok (values.reverse, counted)
  | term :: later =>
    match ev.equateTerm location values.isEmpty term with
    | .error key => .error ⟨key, counted⟩
    | .ok found =>
      ev.equateTerms location (found.value :: values) (countMore counted found.relocations) later

def equate (ev : Evaluator) (expression : Bytes) (location limit : Int) :
    Except EquateFault Equate :=
  if expression = star then .ok ⟨location, 1⟩
  else
    match split expression limit with
    | .error key => .error ⟨key, 0⟩
    | .ok terms =>
      match ev.equateTerms location [] 0 terms.operands with
      | .error fault => .error fault
      | .ok (values, relocations) =>
        let value := reduce values terms.operators
        if isAddress value then .ok ⟨value, relocations⟩ else .error ⟨.expressionRange, 0⟩

/-! ### Address constants -/

/-- An address constant. It is literal if no term depends on the load address, and absolute if a
leading `+` says that it is not to be adjusted; only one that is neither has adjustments. -/
structure Constant where
  value : Int
  adjustments : List Adjustment
  literal : Bool
  absolute : Bool
deriving DecidableEq, Repr

namespace Constant

/-- What is shown for a constant without value. -/
def blank : Constant := ⟨0, [], false, false⟩

/-- The number of adjustments. -/
def relocations (constant : Constant) : Int := constant.adjustments.length

end Constant

structure ConstantTerm where
  value : Int
  adjustments : List Adjustment
  external : Bool
  literal : Bool
deriving DecidableEq, Repr

/-- The value of a term of an address constant that is added or subtracted. -/
def constantTerm (ev : Evaluator) (location : Int) (isFirst positive : Bool) (term : Bytes) :
    Except Key ConstantTerm :=
  if term = star then
    if isFirst then .ok ⟨location, [ev.ownAdjustment true], false, false⟩ else .error .starPosition
  else
    match ev.symbols.get? term with
    | some symbol =>
      if symbol.isLocal then .ok ⟨symbol.address, [ev.ownAdjustment positive], false, false⟩
      else
        match symbol.usage with
        | .external => .ok ⟨0, [⟨positive, symbol.label⟩], true, false⟩
        | .equated =>
          .ok ⟨symbol.value, List.replicate symbol.relocations.toNat (ev.ownAdjustment positive),
            false, !decide (0 < symbol.relocations)⟩
        | _ => .error .constantUsage
    | none =>
      match number? term with
      | some value => .ok ⟨value, [], false, true⟩
      | none => .error .undefined

/-- The terms after the first, each with the operator before it. -/
def constantTerms (ev : Evaluator) (location : Int) (read : List ConstantTerm) :
    List (Bytes × UInt8) → Except Key (List ConstantTerm)
  | [] => .ok read.reverse
  | (term, operator) :: later =>
    match ev.constantTerm location read.isEmpty (operator == byte '+') term with
    | .error key => .error key
    | .ok found => ev.constantTerms location (found :: read) later

/-- The constant of terms joined by operators, if its value is in range: an address, or the
negative of one if an external symbol is to be added. -/
def constantOf (absolute : Bool) (terms : List ConstantTerm) (operators : Bytes) :
    Except Key Constant :=
  let value := reduce (terms.map (·.value)) operators
  let lowest := if terms.any (·.external) then -Word.lastAddress else 0
  if lowest ≤ value ∧ value ≤ Word.lastAddress then
    let literal := terms.all (·.literal)
    .ok ⟨value, if literal || absolute then [] else terms.flatMap (·.adjustments),
      literal, absolute⟩
  else .error .expressionRange

/-- Evaluates the expression of an address constant without its mark. -/
def unmarkedConstant (ev : Evaluator) (absolute : Bool) (expression : Bytes)
    (location limit : Int) : Except Key Constant :=
  if expression = star then
    constantOf absolute [⟨location, [ev.ownAdjustment true], false, false⟩] []
  else
    match split expression limit with
    | .error key => .error key
    | .ok terms =>
      match ev.constantTerms location [] (terms.operands.zip (byte '+' :: terms.operators)) with
      | .error key => .error key
      | .ok found => constantOf absolute found terms.operators

/-- Whether an address constant is marked absolute, and its expression without the mark. -/
def unmark : Bytes → Bool × Bytes
  | [] => (false, [])
  | first :: rest => if first = byte '+' then (true, rest) else (false, first :: rest)

def constant (ev : Evaluator) (expression : Bytes) (location limit : Int) : Except Key Constant :=
  ev.unmarkedConstant (unmark expression).1 (unmark expression).2 location limit

/-! ### Evaluation into a modification -/

/-- Evaluates an operand expression and adds its adjustments to a modification. -/
def operandInto (ev : Evaluator) (expression : Bytes) (location : Int)
    (modification : Modification) : Except Key Int × Modification :=
  match ev.operand expression location with
  | .ok (value, adjustments) => (.ok value, modification.append adjustments)
  | .error key => (.error key, modification)

/-- Evaluates an address constant and adds its adjustments to a modification. -/
def constantInto (ev : Evaluator) (expression : Bytes) (location limit : Int)
    (modification : Modification) : Except Key Constant × Modification :=
  match ev.constant expression location limit with
  | .ok found => (.ok found, modification.append found.adjustments)
  | .error key => (.error key, modification)

/-! ### Traces -/

/-- How the outcome of an evaluation ends its trace. -/
def traceEnd {α : Type} : Except Key α → Bytes
  | .ok _ => ascii "<nil>"
  | .error key => key.text

def traceStart (what : String) (expression : Bytes) (location : Int) : Bytes :=
  ascii "expr: " ++ ascii what ++ ascii " '" ++ expression ++ ascii "' at " ++
    Numeral.decimal location ++ ascii ": "

def operandTrace (expression : Bytes) (location : Int) (outcome : Except Key Int) : Bytes :=
  traceStart "operand" expression location ++ Numeral.decimal (outcome.toOption.getD 0) ++
    [byte ' '] ++ traceEnd outcome

/-- The trace of an equate; a failed one shows the contributions counted before. -/
def equateTrace (expression : Bytes) (location : Int) (outcome : Except EquateFault Equate) :
    Bytes :=
  let (value, relocations) := match outcome with
    | .ok found => (found.value, found.relocations)
    | .error fault => (0, fault.counted)
  traceStart "equ" expression location ++ Numeral.decimal value ++ ascii " (" ++
    Numeral.decimal relocations ++ ascii ") " ++ traceEnd (outcome.mapError (·.key))

def boolText (value : Bool) : Bytes := if value then ascii "true" else ascii "false"

/-- The trace of an address constant, shown without its mark. -/
def constantTrace (expression : Bytes) (location : Int) (outcome : Except Key Constant) : Bytes :=
  let found := outcome.toOption.getD Constant.blank
  traceStart "adc" (unmark expression).2 location ++ ascii "\x7bValue:" ++ Numeral.decimal found.value ++
    ascii " Relocations:" ++ Numeral.decimal found.relocations ++
    ascii " Literal:" ++ boolText found.literal ++
    ascii " Absolute:" ++ boolText found.absolute ++ ascii "\x7d " ++ traceEnd outcome

end Evaluator

end WordAssembler.Expression

import WordAssembler.Assembly.Line
import WordAssembler.Machine.Opcodes

/-!
Encoding of instructions. A word has the bitcode in its top five bits, a flag bit below it, and ten
bits of address. The flag bit of a stack instruction marks a literal operand, and that of the
character functions of the other groups a write. Symbols and expressions leave the address zero
until every address is known.
-/

set_option autoImplicit false

namespace WordAssembler

namespace Word

/-- The bit below the bitcode. -/
def flagBit : Word := 0x400

def addressMask : Word := 0x3FF

def withAddress (word : Word) (address : Int) : Word :=
  (word &&& ~~~addressMask) ||| Word.ofInt address

end Word

namespace Instruction

/-- The operand has a value before the addresses of labels are known. -/
def isNumeric (instruction : Instruction) : Bool :=
  instruction.operand.kind.isNumeric || instruction.equated.isSome

/-- The functions on characters, which set the flag bit. -/
def isCharacterFunction (function : Bytes) : Bool :=
  function == ascii "READC" || function == ascii "WRITEC"

def functionFlag (instruction : Instruction) : Word :=
  if isCharacterFunction instruction.function then Word.flagBit else 0

def valueWord (instruction : Instruction) : Word := Word.ofInt instruction.operand.value

/-- What is wrong with the operand of a control instruction. -/
def controlFault? (instruction : Instruction) : Option Key :=
  let operand := instruction.operand
  if instruction.function = ascii "HALT" then
    if instruction.isNumeric ∧ operand.value ≤ Word.lastAddress then none else some .haltRange
  else if instruction.function = ascii "DUMP" then
    if instruction.isNumeric ∧ 1 ≤ operand.value ∧ operand.value ≤ 3 then none
    else some .dumpOperand
  else if instruction.function = ascii "CLRD" ∨ instruction.function = ascii "CLRT" then
    if operand.kind = .none then none else some .noOperand
  else if instruction.function = ascii "GOTO" then
    if operand.kind = .symbol ∨ operand.kind = .expression then none else some .operandKind
  else none

def encodeControl (instruction : Instruction) (operation : Word) : Except Key Word :=
  match instruction.controlFault? with
  | some key => .error key
  | none =>
    .ok (if instruction.isNumeric then operation ||| (instruction.valueWord &&& Word.addressMask)
      else operation)

def encodeStack (instruction : Instruction) (operation : Word) : Except Key Word :=
  let operand := instruction.operand
  if operand.kind = .none then .error .operandRequired
  else if instruction.isNumeric then
    if operand.value ≤ Word.lastAddress then
      let word := operation ||| instruction.valueWord
      .ok (if instruction.relocations = 0 then word ||| Word.flagBit else word)
    else .error .literalRange
  else if operand.kind = .expression then .ok (operation ||| Word.flagBit)
  else if operand.kind = .symbol then .ok operation
  else .error .operandKind

/-- Encodes an instruction whose operand is an address; `range` is said of a number beyond. -/
def encodeAddress (instruction : Instruction) (range : Key) (operation : Word) : Except Key Word :=
  let operand := instruction.operand
  if operand.kind = .none then .error .operandRequired
  else if instruction.isNumeric then
    if operand.value ≤ Word.lastAddress then
      .ok (operation ||| instruction.functionFlag ||| instruction.valueWord)
    else .error range
  else if operand.kind = .symbol ∨ operand.kind = .expression then
    .ok (operation ||| instruction.functionFlag)
  else .error .operandKind

def shortLargest : Int := 255

def encodeShort (instruction : Instruction) (operation : Word) : Except Key Word :=
  if instruction.isNumeric ∧ instruction.operand.value ≤ shortLargest then
    .ok (operation ||| instruction.functionFlag ||| instruction.valueWord)
  else .error .shortRange

/-- The word of an instruction with the operation bits that its table gives. -/
def encode (table : Opcodes) (instruction : Instruction) : Except Key Word :=
  match table.operation instruction.group instruction.function with
  | .error _ => .error .badFunction
  | .ok operation =>
    match instruction.group with
    | .cntl => instruction.encodeControl operation
    | .stack => instruction.encodeStack operation
    | .jump => instruction.encodeAddress .haltRange operation
    | .moper => instruction.encodeAddress .literalRange operation
    | .soper => instruction.encodeShort operation
    | .other _ => .ok 0

end Instruction

end WordAssembler

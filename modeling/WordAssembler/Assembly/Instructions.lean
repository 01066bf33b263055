import WordAssembler.Assembly.Encoding
import WordAssembler.Assembly.Labels

/-!
Instructions on the first pass: the line gets a word, with the address still open if the operand is
a label or an expression.
-/

set_option autoImplicit false

namespace WordAssembler.Pass

/-- The instruction with the value of the equated symbol that its operand names, if it names one
defined before. -/
def substitute (p : Pass) (instruction : Instruction) : Instruction :=
  if instruction.operand.kind = .symbol then
    match p.symbols.get? instruction.operand.text with
    | some symbol =>
      if symbol.usage = .equated then
        { instruction with
          equated := some symbol.label
          relocations := symbol.relocations
          operand := { instruction.operand with value := symbol.value } }
      else instruction
    | none => instruction
  else instruction

/-- Encodes an instruction into the word of its line. -/
def encodeLine (p : Pass) (assembler : Assembler) (instruction : Instruction) : Pass :=
  if (assembler.opcodes.find? instruction.group instruction.function).isNone then
    p.fail assembler .badFunction
  else if instruction.operand.kind = .malformed then p.invalidate
  else
    let instruction := p.substitute instruction
    let p := p.setStatement (.instruction instruction)
    match instruction.encode assembler.opcodes with
    | .ok word => p.setWord word
    | .error key => p.fail assembler key

/-- Reads the function and operand of an instruction; what follows the operand is returned. A
comment in place of the function leaves both empty. -/
def readFunction (p : Pass) (assembler : Assembler) (group : Group) (rest : Bytes) :
    Instruction × Bytes × Pass :=
  let (function, after) := Token.next rest
  if function.kind = .comment then
    (⟨group, [], Operand.absent, none, 0⟩, after, p.setComment (some function.text))
  else
    let (operand, after, p) := p.readOperand assembler after
    (⟨group, upper function.text, operand, none, 0⟩, after, p)

/-- Reads an instruction of a group, and gives its line a word. -/
def readInstruction (p : Pass) (assembler : Assembler) (group : Group) (rest : Bytes) :
    Pass × Bytes :=
  let (instruction, after, p) := p.readFunction assembler group rest
  let p := (p.setStatement (.instruction instruction)).defineOwnLabel assembler
  (p.allocate assembler fun p => p.encodeLine assembler instruction, after)

end WordAssembler.Pass

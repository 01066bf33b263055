import WordAssembler.Assembly.Encoding
import WordAssembler.Assembly.Pass

/-!
Resolution of a line on the second pass, when all symbols and the length of the program are known.
Its word gets its address, its flag says whether the word moves with the program, and a word that
depends on more than the load address once has a list of adjustments for the linker.
-/

set_option autoImplicit false

namespace WordAssembler.Pass

open Expression

/-- Resolves an instruction whose operand is an equated symbol with some relocatable contributions:
with one the word moves with the program, and with more it needs as many adjustments. -/
def resolveEquated (p : Pass) (relocations : Int) : Pass × Option (List Adjustment) :=
  if relocations = 0 then (p, none)
  else if relocations = 1 then (p.setFlag .relocatable, none)
  else (p, some (List.replicate relocations.toNat (p.evaluator.ownAdjustment true)))

/-- Resolves an instruction whose operand is a label. -/
def resolveSymbol (p : Pass) (assembler : Assembler) (label : Bytes) :
    Pass × Option (List Adjustment) :=
  match p.symbols.get? label with
  | none => (p.fail assembler .undefinedOperand, none)
  | some symbol =>
    match symbol.usage with
    | .external => (p, some [⟨true, symbol.label⟩])
    | .equated => (p.fail assembler .equateForward, none)
    | _ =>
      match symbol.location with
      | some location =>
        ((p.setWord (p.line.word.withAddress location)).setFlag .relocatable, none)
      | none => (p.fail assembler .undefinedOperand, none)

/-- Resolves an instruction whose operand is an expression; its value must lie in the program. -/
def resolveExpression (p : Pass) (assembler : Assembler) (expression : Bytes) :
    Pass × Option (List Adjustment) :=
  let outcome := p.evaluator.operand expression p.line.location
  let p := p.note assembler
    (Evaluator.operandTrace expression p.line.location (outcome.map (·.1)))
  match outcome with
  | .error key => (p.fail assembler key, none)
  | .ok (value, adjustments) =>
    if p.context.inModule value then
      (p.setWord (p.line.word.withAddress value), some adjustments)
    else (p.fail assembler .outsideModule, none)

def resolveInstruction (p : Pass) (assembler : Assembler) (instruction : Instruction) :
    Pass × Option (List Adjustment) :=
  if instruction.equated.isSome then p.resolveEquated instruction.relocations
  else
    match instruction.operand.kind with
    | .symbol => p.resolveSymbol assembler instruction.operand.text
    | .expression => p.resolveExpression assembler instruction.operand.text
    | _ => (p, none)

/-- Every adjustment is to the program itself. -/
def isOwn (p : Pass) (adjustments : List Adjustment) : Bool :=
  adjustments.all (·.label == p.context.program)

/-- An address constant that moves with the program and with no other must lie in the program. -/
def isOutside (p : Pass) (found : Evaluator.Constant) : Bool :=
  !found.literal && !found.absolute && p.isOwn found.adjustments &&
    !p.context.inModule found.value

/-- Resolves an address constant given by an expression. -/
def resolveConstant (p : Pass) (assembler : Assembler) (directive : Directive)
    (expression : Bytes) : Pass × Option (List Adjustment) :=
  let outcome := p.evaluator.constant expression p.line.location directive.operatorLimit
  let p := p.note assembler (Evaluator.constantTrace expression p.line.location outcome)
  match outcome with
  | .error key => (p.fail assembler key, none)
  | .ok found =>
    if p.isOutside found then (p.fail assembler .outsideModule, none)
    else
      (p.setWord (Word.ofInt (Word.convert found.value Word.bits)),
        if found.adjustments.isEmpty then none else some found.adjustments)

/-- Resolves a directive with a word; only address constants are still open. -/
def resolveDirective (p : Pass) (assembler : Assembler) (directive : Directive)
    (operand : Operand) : Pass × Option (List Adjustment) :=
  if directive = .adc ∨ directive = .adce then
    if operand.kind.isNumeric then (p.setWord (Word.ofInt operand.value), none)
    else
      match operand.kind with
      | .symbol | .expression => p.resolveConstant assembler directive operand.text
      | _ => (p, none)
  else (p, none)

def resolveStatement (p : Pass) (assembler : Assembler) : Pass × Option (List Adjustment) :=
  match p.line.statement with
  | some (.instruction instruction) => p.resolveInstruction assembler instruction
  | some (.directive directive operand) => p.resolveDirective assembler directive operand
  | _ => (p, none)

/-- The modification of the line by adjustments, of which a word has room for fifteen. -/
def modify (p : Pass) (assembler : Assembler) (adjustments : List Adjustment) :
    Pass × Modification :=
  let p := if mostAdjustments < adjustments.length then p.report assembler .truncated else p
  let p := p.setFlag .modify
  (p, ⟨p.line.location, p.line.word, adjustments.take mostAdjustments, p.context.program⟩)

/-- Resolves an addressed line; a word that the linker adjusts has a modification. -/
def resolve (p : Pass) (assembler : Assembler) : Pass × Option Modification :=
  match (p.setFlag .absolute).resolveStatement assembler with
  | (p, none) => (p, none)
  | (p, some adjustments) =>
    let (p, modification) := p.modify assembler adjustments
    (p, some modification)

end WordAssembler.Pass

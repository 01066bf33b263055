import WordAssembler.Assembly.Pass

/-!
Labels, operands and locations of a line, on the first pass.
-/

set_option autoImplicit false

namespace WordAssembler.Pass

/-- Reads the label column: a label is a name of 2 to 32 characters. -/
def readLabel (p : Pass) (assembler : Assembler) : Option Token → Pass
  | none => p
  | some token =>
    if token.kind ≠ .label then p.report assembler .labelForm
    else if !Expression.isLabelLength token.text then p.report assembler .labelLength
    else p.mapLine fun line => { line with label := some token.text }

/-- Defines a label at a location. An entry without location takes it; any other symbol with the
label stays as it is. -/
def defineLabel (p : Pass) (assembler : Assembler) (label : Bytes) (location : Int) : Pass :=
  match p.symbols.get? label with
  | none => { p with symbols := p.symbols.extend ⟨label, some location, .label, 0, 0⟩ }
  | some symbol =>
    if symbol.usage = .entry ∧ !symbol.isLocated then
      { p with symbols := p.symbols.insert { symbol with location := some location } }
    else p.report assembler .redefined

/-- Defines the label of the line, if it has one, at the location counter. -/
def defineOwnLabel (p : Pass) (assembler : Assembler) : Pass :=
  match p.line.label with
  | some label => p.defineLabel assembler label p.context.location
  | none => p

/-- Gives the line the word at the location counter. -/
def occupy (p : Pass) : Pass :=
  { p with
    line := { p.line with location := p.context.location, addressed := true }
    context := { p.context with location := p.context.location + 1 } }

/-- Continues with a word for the line, unless memory is full. -/
def allocate (p : Pass) (assembler : Assembler) (next : Pass → Pass) : Pass :=
  if p.context.location > Word.lastAddress then p.report assembler .tooLarge
  else next p.occupy

/-- Reads an operand, or a comment in its place. -/
def readOperand (p : Pass) (assembler : Assembler) (rest : Bytes) : Operand × Bytes × Pass :=
  let (token, after) := Token.next rest
  let operand := Operand.ofToken token
  let p := if token.kind = .comment then p.setComment (some token.text) else p
  (operand, after, if operand.kind = .malformed then p.report assembler .malformed else p)

/-- Reads what follows the operand: a comment, or something that is ignored with a warning. -/
def readTrailing (p : Pass) (assembler : Assembler) (rest : Bytes) : Pass :=
  let token := (Token.next rest).1
  match token.kind with
  | .empty => p
  | .comment => p.setComment (some token.text)
  | _ => p.report assembler .trailing

end WordAssembler.Pass

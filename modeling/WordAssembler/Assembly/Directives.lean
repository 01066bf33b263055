import WordAssembler.Assembly.Labels

/-!
Directives on the first pass. Each function applies one directive, given its operand, to the
program; the line already holds the statement.
-/

set_option autoImplicit false

namespace WordAssembler.Pass

open Expression

/-- Warns of a label on a directive that takes none. -/
def ignoreLabel (p : Pass) (assembler : Assembler) : Pass :=
  if p.line.label.isSome then p.report assembler .labelIgnored else p

/-- Begins the program with a name at a load address. -/
def beginProgram (p : Pass) (name : Bytes) (load : Int) : Pass :=
  { p with
    context := { p.context with started := true, program := name, start := load, location := load }
    line := { p.line with location := load }
    symbols := p.symbols.extend ⟨name, some load, .programName, 0, 0⟩ }

/-- START: the label is the program name and the operand its load address, or the operand is the
name and the load address 0. -/
def applyStart (p : Pass) (assembler : Assembler) (operand : Operand) : Pass :=
  if p.context.started then p.report assembler .secondStart
  else
    match p.line.label with
    | none =>
      if operand.kind = .symbol ∧ isLabelLength operand.text then p.beginProgram operand.text 0
      else p.report assembler .startLabel
    | some name =>
      if operand.kind = .number ∧ operand.value ≤ Word.lastAddress then
        p.beginProgram name operand.value
      else p.report assembler .startOperand

/-- END: the operand names the program. -/
def applyEnd (p : Pass) (assembler : Assembler) (operand : Operand) : Pass :=
  let p := p.ignoreLabel assembler
  if operand.kind = .symbol ∧ operand.text = p.context.program then
    p.mapContext fun context => { context with ended := true }
  else p.report assembler .endName

/-- Makes the label an equated symbol, and its value that of the operand. -/
def equate (p : Pass) (label : Bytes) (directive : Directive) (operand : Operand)
    (found : Evaluator.Equate) : Pass :=
  let p := p.setStatement (.directive directive { operand with value := found.value })
  { p with
    symbols := p.symbols.extend
      ⟨label, some p.context.location, .equated, found.value, found.relocations⟩ }

/-- EQU and EQUE: the label stands for the value of the operand. -/
def applyEquate (p : Pass) (assembler : Assembler) (directive : Directive) (operand : Operand) :
    Pass :=
  match p.line.label with
  | none => p.report assembler .equateLabel
  | some label =>
    if p.symbols.contains label then p.report assembler .redefined
    else if operand.kind.isNumeric then
      if operand.value ≤ Word.lastAddress then
        p.equate label directive operand ⟨operand.value, 0⟩
      else p.report assembler .equateRange
    else
      match operand.kind with
      | .symbol | .expression =>
        let outcome :=
          p.evaluator.equate operand.text p.context.location directive.operatorLimit
        let p := p.note assembler
          (Evaluator.equateTrace operand.text p.context.location outcome)
        match outcome with
        | .ok found => p.equate label directive operand found
        | .error fault => p.report assembler fault.key
      | .malformed => p
      | _ => p.report assembler .equateOperand

/-- ENTRY: the operand is a label of the program, to be exported. -/
def applyEntry (p : Pass) (assembler : Assembler) (operand : Operand) : Pass :=
  let p := p.ignoreLabel assembler
  if operand.kind = .symbol then
    match p.symbols.get? operand.text with
    | none => { p with symbols := p.symbols.extend ⟨operand.text, none, .entry, 0, 0⟩ }
    | some symbol =>
      match symbol.usage with
      | .label => { p with symbols := p.symbols.insert { symbol with usage := .entry } }
      | .entry => p
      | _ => p.report assembler .entryUsage
  else p.report assembler .operandKind

/-- EXTRN: the operand is a label of another program. -/
def applyExternal (p : Pass) (assembler : Assembler) (operand : Operand) : Pass :=
  let p := p.ignoreLabel assembler
  if operand.kind = .symbol then
    if p.symbols.contains operand.text then p.report assembler .externalDefined
    else { p with symbols := p.symbols.extend ⟨operand.text, none, .external, 0, 0⟩ }
  else p.report assembler .operandKind

/-- The address that the operand of RESET stands for. -/
def resetTarget? (p : Pass) (operand : Operand) : Option Int :=
  let target? :=
    if operand.kind.isNumeric then some operand.value
    else if operand.kind = .symbol then
      ((p.symbols.get? operand.text).filter (·.usage = .equated)).map (·.value)
    else none
  target?.filter isAddress

/-- RESET: moves the location counter forward to the operand, where the label is defined. -/
def applyReset (p : Pass) (assembler : Assembler) (operand : Operand) : Pass :=
  match p.line.label with
  | none => p.report assembler .resetLabel
  | some label =>
    match p.resetTarget? operand with
    | none => p.report assembler .resetOperand
    | some target =>
      if target ≤ p.context.location then p.report assembler .resetBackward
      else
        let p := p.defineLabel assembler label target
        let p := p.setStatement (.directive .reset { operand with value := target })
        { p with
          context := { p.context with location := target }
          line := { p.line with location := target } }

/-- DAT: a word with the value of a literal. -/
def applyData (p : Pass) (assembler : Assembler) (operand : Operand) : Pass :=
  (p.defineOwnLabel assembler).allocate assembler fun p =>
    if operand.kind.isLiteral then p.setWord (Word.ofInt operand.value)
    else if operand.kind = .malformed then p
    else p.report assembler .dataOperand

/-- ADC and ADCE: a word for an address constant, whose value is found on the second pass. -/
def applyConstant (p : Pass) (assembler : Assembler) (operand : Operand) : Pass :=
  (p.defineOwnLabel assembler).allocate assembler fun p =>
    if operand.kind = .none then p.report assembler .operandRequired else p

/-- NOP: a word that does nothing. -/
def applyIdle (p : Pass) (assembler : Assembler) (operand : Operand) : Pass :=
  (p.defineOwnLabel assembler).allocate assembler fun p =>
    let p := p.setWord Line.idleWord
    if operand.kind = .none then p else p.report assembler .noOperand

def applyDirective (p : Pass) (assembler : Assembler) (directive : Directive)
    (operand : Operand) : Pass :=
  match directive with
  | .start => p.applyStart assembler operand
  | .finish => p.applyEnd assembler operand
  | .equ | .eque => p.applyEquate assembler directive operand
  | .entry => p.applyEntry assembler operand
  | .extrn => p.applyExternal assembler operand
  | .reset => p.applyReset assembler operand
  | .dat => p.applyData assembler operand
  | .adc | .adce => p.applyConstant assembler operand
  | .nop => p.applyIdle assembler operand

/-- Reads the operand of a directive and applies it; what follows the operand is returned. -/
def readDirective (p : Pass) (assembler : Assembler) (directive : Directive) (rest : Bytes) :
    Pass × Bytes :=
  let (operand, after, p) := p.readOperand assembler rest
  ((p.setStatement (.directive directive operand)).applyDirective assembler directive operand, after)

end WordAssembler.Pass

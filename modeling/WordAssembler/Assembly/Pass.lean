import WordAssembler.Assembly.Program
import WordAssembler.Expression.Evaluator
import WordAssembler.Text.LineError

/-!
Work on one line. A pass over a program visits its lines in order; while it is at a line, the line,
the state of the assembly, the symbols, the fatal fault if there was one, and the log are at hand.
-/

set_option autoImplicit false

namespace WordAssembler

abbrev FatalFault := LineError Diagnostic

/-- A pass at a line. The log is kept latest entry first. -/
structure Pass where
  context : Context
  symbols : Symbol.Table
  line : Line
  fatal : Option FatalFault
  log : List Bytes

namespace Pass

def mapLine (p : Pass) (change : Line → Line) : Pass := { p with line := change p.line }

def mapContext (p : Pass) (change : Context → Context) : Pass :=
  { p with context := change p.context }

/-- Writes to the log of a verbose assembler. -/
def note (p : Pass) (assembler : Assembler) (entry : Bytes) : Pass :=
  if assembler.verbose then { p with log := entry :: p.log } else p

def setStatement (p : Pass) (statement : Statement) : Pass :=
  p.mapLine fun line => { line with statement := some statement }

def setComment (p : Pass) (comment : Option Bytes) : Pass :=
  p.mapLine fun line => { line with comment := comment }

def setWord (p : Pass) (word : Word) : Pass := p.mapLine fun line => { line with word := word }

def setFlag (p : Pass) (flag : Flag) : Pass := p.mapLine fun line => { line with flag := flag }

def invalidate (p : Pass) : Pass := p.mapLine Line.invalidate

/-- Records a diagnostic on the line; the first fatal one is the fault of the pass. -/
def report (p : Pass) (assembler : Assembler) (key : Key) : Pass :=
  let diagnostic := assembler.catalog.lookup key
  let line := { p.line with diagnostics := p.line.diagnostics ++ [diagnostic] }
  let fault : FatalFault := ⟨p.line.number, p.line.source, diagnostic⟩
  let reported : Pass :=
    { p with
      context := p.context.tally key.severity
      line := line
      fatal := if key.severity = .fatal then p.fatal.or (some fault) else p.fatal }
  reported.note assembler (Numeral.decimal p.line.number ++ ascii ": " ++ diagnostic.text)

/-- Records a serious diagnostic, or a warning that spoils the word, and gives up the statement. -/
def fail (p : Pass) (assembler : Assembler) (key : Key) : Pass :=
  (p.report assembler key).invalidate

/-- What the expressions of the program refer to. -/
def evaluator (p : Pass) : Expression.Evaluator := ⟨p.symbols, p.context.program⟩

/-- The log entry of an instruction: its word, what was written, and what the word decodes to. -/
def instructionEntry (assembler : Assembler) (line : Line) (instruction : Instruction) : Bytes :=
  let (group, function) := match assembler.opcodes.decode? line.word with
    | some entry => (entry.group, entry.function)
    | none => (Group.cntl, [])
  Word.binaryDigits line.word.toNat 16 ++ [byte ' '] ++ instruction.group.name ++ [byte ' '] ++
    instruction.function ++ ascii " (" ++ group.name ++ [byte ' '] ++ function ++ ascii ") " ++
    instruction.operand.text

/-- The log entry of a line that has a statement. -/
def lineEntry? (assembler : Assembler) (line : Line) : Option Bytes :=
  let start := Numeral.decimal line.number ++ ascii ": " ++ hexField line.location ++ [byte ' ']
  match line.statement with
  | some (.instruction instruction) => some (start ++ instructionEntry assembler line instruction)
  | some (.directive directive operand) =>
    some (start ++ directive.name ++ [byte ' '] ++ operand.text)
  | some .invalidated =>
    some (start ++ Word.binaryDigits line.word.toNat 16 ++ ascii " invalidated")
  | none => none

def noteLine (p : Pass) (assembler : Assembler) : Pass :=
  match lineEntry? assembler p.line with
  | some entry => p.note assembler entry
  | none => p

end Pass

end WordAssembler

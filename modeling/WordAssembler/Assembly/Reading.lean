import WordAssembler.Assembly.Columns
import WordAssembler.Assembly.Directives
import WordAssembler.Assembly.Instructions
import WordAssembler.Text.Lines

/-!
The first pass. It reads the source a line at a time, defines symbols, gives words to lines and
encodes instructions. A fatal diagnostic ends it at its line.
-/

set_option autoImplicit false

namespace WordAssembler

namespace Pass

/-- Ends the work on a line with a command: what follows the operand is read, and an addressed line
with a serious diagnostic gives up its statement. -/
def finishLine (p : Pass) (assembler : Assembler) (rest : Bytes) : Pass :=
  if p.fatal.isSome then p
  else
    let p := p.readTrailing assembler rest
    if p.line.addressed && p.line.has .serious && !p.line.isInvalidated then p.invalidate else p

/-- A line whose command is missing or unknown. A label by itself is defined all the same; only a
bad label with nothing after it passes without another diagnostic. -/
def readUnknown (p : Pass) (assembler : Assembler) (columns : Columns) : Pass :=
  let p := if columns.command.kind = .comment then p.setComment (some columns.command.text) else p
  let p := p.defineOwnLabel assembler
  let isMissing := columns.command.kind = .empty ∨ columns.command.kind = .comment
  if p.line.label.isNone ∧ columns.label.isSome ∧ isMissing then p
  else p.report assembler .badCommand

/-- Reads a line that is not blank. -/
def readCommand (p : Pass) (assembler : Assembler) : Pass :=
  let columns := assembler.columns p.line.source
  let p := p.readLabel assembler columns.label
  match assembler.command? columns.command with
  | some (.group group) =>
    let (p, rest) := p.readInstruction assembler group columns.rest
    p.finishLine assembler rest
  | some (.directive directive) =>
    let (p, rest) := p.readDirective assembler directive columns.rest
    p.finishLine assembler rest
  | none => p.readUnknown assembler columns

def readBlank (p : Pass) : Pass := p.setComment (Line.comment? p.line.source)

/-- Reads a line. The first must be a START directive, and after END all must be blank. -/
def readLine (p : Pass) (assembler : Assembler) : Pass :=
  if p.line.number = 1 ∧ !assembler.isStart p.line.source then p.report assembler .noStart
  else if p.context.ended ∧ !Line.isBlank p.line.source then p.report assembler .afterEnd
  else if p.context.ended ∨ Line.isBlank p.line.source then p.readBlank
  else p.readCommand assembler

end Pass

/-- The first pass between lines. The lines read and the log are kept latest first. -/
structure Reading where
  context : Context
  symbols : Symbol.Table
  lines : List Line
  fatal : Option FatalFault
  log : List Bytes

namespace Reading

def initial : Reading := ⟨.initial, .empty, [], none, []⟩

def pass (reading : Reading) (line : Line) : Pass :=
  ⟨reading.context, reading.symbols, line, reading.fatal, reading.log⟩

/-- The reading after the work on a line, which comes before the lines read. -/
def afterPass (p : Pass) (lines : List Line) : Reading :=
  ⟨p.context, p.symbols, p.line :: lines, p.fatal, p.log⟩

/-- Reads a line, given with its number, unless a fatal diagnostic has ended the pass. -/
def add (assembler : Assembler) (reading : Reading) (numbered : Bytes × Nat) : Reading :=
  if reading.fatal.isSome then reading
  else
    let source := dropTrailing Lines.isCarriageReturn numbered.1
    let p := reading.pass (Line.unread numbered.2 source reading.context.location)
    afterPass ((p.readLine assembler).noteLine assembler) reading.lines

/-- Reads lines, numbered from 1. -/
def ofLines (assembler : Assembler) (lines : List Bytes) : Reading :=
  (lines.zipIdx 1).foldl (add assembler) initial

/-- Records a diagnostic on the line read last; without lines, on an empty first one. -/
def reportLast (assembler : Assembler) (reading : Reading) (key : Key) : Reading :=
  match reading.lines with
  | last :: earlier => afterPass ((reading.pass last).report assembler key) earlier
  | [] => afterPass ((reading.pass (Line.unread 1 [] 0)).report assembler key) []

/-- Ends the pass: a source must have lines and an END directive. -/
def finish (assembler : Assembler) (reading : Reading) : Reading :=
  if reading.fatal.isSome then reading
  else if reading.lines.isEmpty then reading.reportLast assembler .noStart
  else if reading.context.ended then reading
  else reading.reportLast assembler .noEnd

def program (reading : Reading) : Program :=
  ⟨reading.context, reading.lines.reverse, reading.symbols⟩

end Reading

/-- Why a source is not assembled. -/
inductive ParseFault where
  | fatal (fault : FatalFault)
  | tooLong
deriving DecidableEq, Repr

def ParseFault.message : ParseFault → Bytes
  | .fatal fault => fault.message Diagnostic.text
  | .tooLong => Lines.tooLongMessage

/-- A program as read, why reading failed if it did, and the log. -/
structure Parsed where
  program : Program
  fault : Option ParseFault
  log : List Bytes

namespace Assembler

/-- Reads a source on the first pass. A fatal diagnostic counts before a line that is too long. -/
def parse (assembler : Assembler) (text : Bytes) : Parsed :=
  let source := Lines.read text
  let read := Reading.ofLines assembler source.lines
  if source.tooLong && read.fatal.isNone then ⟨read.program, some .tooLong, read.log.reverse⟩
  else
    let reading := read.finish assembler
    ⟨reading.program, reading.fatal.map .fatal, reading.log.reverse⟩

end Assembler

end WordAssembler

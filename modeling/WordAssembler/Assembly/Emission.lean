import WordAssembler.Assembly.Reading
import WordAssembler.Assembly.Resolution
import WordAssembler.ObjectFile.File

/-!
The second pass. It exports the entries, resolves the addressed lines in order, and collects the
records of the object file.
-/

set_option autoImplicit false

namespace WordAssembler

/-- The second pass between lines. Lines done, records and log are kept latest first. -/
structure Emission where
  context : Context
  symbols : Symbol.Table
  lines : List Line
  linking : List Linking
  text : List TextRecord
  modifications : List Modification
  log : List Bytes

namespace Emission

def pass (emission : Emission) (line : Line) : Pass :=
  ⟨emission.context, emission.symbols, line, none, emission.log⟩

def afterPass (emission : Emission) (p : Pass) : Emission :=
  { emission with context := p.context, lines := p.line :: emission.lines, log := p.log }

/-! ### Entries -/

/-- The line is an ENTRY directive that names a label. -/
def namesEntry (label : Bytes) (line : Line) : Bool :=
  match line.directive? with
  | some (directive, operand) => directive == .entry && operand.text == label
  | none => false

/-- Reports a label without location on each ENTRY line that names it. -/
def reportEntry (assembler : Assembler) (label : Bytes) (emission : Emission) : Emission :=
  let visited := emission.lines.foldl (fun (visited : Emission) line =>
    let p := visited.pass line
    visited.afterPass (if namesEntry label line then p.report assembler .entryUndefined else p))
    { emission with lines := [] }
  { visited with lines := visited.lines.reverse }

/-- Exports an entry symbol, or reports it if it has no location. -/
def exportEntry (assembler : Assembler) (emission : Emission) (symbol : Symbol) : Emission :=
  if symbol.usage = .entry then
    match symbol.location with
    | some location =>
      { emission with
        linking := ⟨symbol.label, location, emission.context.program⟩ :: emission.linking }
    | none => emission.reportEntry assembler symbol.label
  else emission

/-- Exports the entry symbols, in the order of their labels. -/
def exportEntries (assembler : Assembler) (emission : Emission) : Emission :=
  emission.symbols.symbols.foldl (exportEntry assembler) emission

/-! ### Lines -/

/-- The linking record of a RESET line without diagnostics. -/
def resetLinking? (program : Bytes) (line : Line) : Option Linking :=
  match line.directive? with
  | some (.reset, operand) =>
    if line.diagnostics.isEmpty then some ⟨line.label.getD [], operand.value, program⟩ else none
  | _ => none

/-- The text record of a line with a number of adjustments. -/
def textRecord (program : Bytes) (line : Line) (adjustments : Nat) : TextRecord :=
  ⟨line.location, line.word, line.flag, adjustments, program⟩

/-- Emits the word of an addressed line. -/
def addWord (assembler : Assembler) (emission : Emission) (line : Line) : Emission :=
  let program := emission.context.program
  let (p, modification?) := (emission.pass line).resolve assembler
  let record := textRecord program p.line ((modification?.map Modification.size).getD 0)
  let emitted := emission.afterPass (p.noteLine assembler)
  { emitted with
    text := record :: emitted.text
    modifications := modification?.toList ++ emitted.modifications }

def add (assembler : Assembler) (emission : Emission) (line : Line) : Emission :=
  if line.addressed then emission.addWord assembler line
  else
    { emission with
      lines := line :: emission.lines
      linking := (resetLinking? emission.context.program line).toList ++ emission.linking }

def addLines (assembler : Assembler) (emission : Emission) : Emission :=
  emission.lines.foldl (add assembler) { emission with lines := [] }

/-! ### The object file -/

/-- The second pass before any line. -/
def start (program : Program) : Emission :=
  ⟨{ program.context with emitted := true }, program.symbols, program.lines, [], [], [], []⟩

def run (assembler : Assembler) (program : Program) : Emission :=
  ((start program).exportEntries assembler).addLines assembler

def program (emission : Emission) : Program :=
  ⟨emission.context, emission.lines.reverse, emission.symbols⟩

def header (assembler : Assembler) (emission : Emission) (date : Date) : Header where
  name := emission.context.program
  load := emission.context.start
  length := emission.context.length
  start := emission.context.start
  date := date
  version := if assembler.version = 0 then Header.standardVersion else assembler.version
  assembler := assembler.identifier
  linkingCount := emission.linking.length
  textCount := emission.text.length
  modificationCount := emission.modifications.length

def file (assembler : Assembler) (emission : Emission) (date : Date) : ObjectFile where
  header := emission.header assembler date
  linking := emission.linking.reverse
  text := emission.text.reverse
  modifications := emission.modifications.reverse
  program := emission.context.program

end Emission

/-- Why a program is not emitted. -/
inductive EmitFault where
  | noProgram
  | emitted
deriving DecidableEq, Repr

def EmitFault.message : EmitFault → Bytes
  | .noProgram => ascii "program did not assemble"
  | .emitted => ascii "program already emitted"

/-- A program after the second pass, its object file, and the log. -/
structure Emitted where
  program : Program
  file : ObjectFile
  log : List Bytes

/-- Why a source has no object file. -/
inductive AssemblyFault where
  | parse (fault : ParseFault)
  | emit (fault : EmitFault)
deriving DecidableEq, Repr

def AssemblyFault.message : AssemblyFault → Bytes
  | .parse fault => fault.message
  | .emit fault => fault.message

/-- A program after both passes or what could be done of them, its object file or why there is
none, and the log. -/
structure Assembled where
  program : Program
  outcome : Except AssemblyFault ObjectFile
  log : List Bytes

namespace Assembler

/-- Emits a program that was read, once. -/
def emit (assembler : Assembler) (program : Program) (date : Date) : Except EmitFault Emitted :=
  if program.context.fatal || !program.context.started then .error .noProgram
  else if program.context.emitted then .error .emitted
  else
    let emission := Emission.run assembler program
    .ok ⟨emission.program, emission.file assembler date, emission.log.reverse⟩

/-- Reads a source and emits it. -/
def assemble (assembler : Assembler) (text : Bytes) (date : Date) : Assembled :=
  let parsed := assembler.parse text
  match parsed.fault with
  | some fault => ⟨parsed.program, .error (.parse fault), parsed.log⟩
  | none =>
    match assembler.emit parsed.program date with
    | .error fault => ⟨parsed.program, .error (.emit fault), parsed.log⟩
    | .ok emitted => ⟨emitted.program, .ok emitted.file, parsed.log ++ emitted.log⟩

end Assembler

end WordAssembler

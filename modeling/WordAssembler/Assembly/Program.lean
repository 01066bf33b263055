import WordAssembler.Assembly.Line
import WordAssembler.Diagnostic.Catalog
import WordAssembler.Machine.Opcodes
import WordAssembler.Symbol.Table

/-!
Assemblers and programs. An assembler is given by its tables; a program is what it has read of a
source so far, and what it knows of it.
-/

set_option autoImplicit false

namespace WordAssembler

/-- The tables and settings of an assembler. -/
structure Assembler where
  verbose : Bool := false
  opcodes : Opcodes := Opcodes.standard
  directives : Directives := Directives.standard
  catalog : Catalog := Catalog.standard
  /-- The version in the header; 0 stands for the standard one. -/
  version : Int := 0
  /-- The assembler named in the header; an empty name stands for the standard one. -/
  identifier : Bytes := []

/-- The state of an assembly: the location counter, the load address and name of the program, how
far it has come, and the number of errors and warnings. -/
structure Context where
  location : Int
  start : Int
  program : Bytes
  started : Bool
  ended : Bool
  fatal : Bool
  emitted : Bool
  errors : Nat
  warnings : Nat
deriving DecidableEq, Repr

namespace Context

/-- The state before the first line. -/
def initial : Context := ⟨0, 0, [], false, false, false, false, 0, 0⟩

/-- The length of the program in words. -/
def length (context : Context) : Int := context.location - context.start

def tally (context : Context) : Severity → Context
  | .fatal => { context with errors := context.errors + 1, fatal := true }
  | .serious => { context with errors := context.errors + 1 }
  | .warning => { context with warnings := context.warnings + 1 }
  | .other _ => context

/-- An address of the program, or the one after its last. -/
def inModule (context : Context) (address : Int) : Bool :=
  context.start ≤ address && address ≤ context.start + context.length

end Context

/-- A program as read. -/
structure Program where
  context : Context
  lines : List Line
  symbols : Symbol.Table

namespace Program

def listing (program : Program) (width : Int) : Listing :=
  ⟨program.lines.map Line.row, width⟩

/-- Invalidates the line at a position, counted from 0. -/
def invalidateLine (program : Program) (position : Nat) : Program :=
  { program with lines := program.lines.modify position Line.invalidate }

end Program

end WordAssembler

import WordAssembler.Assembly.Program

/-!
Columns of a source line. A label starts in the first column, unless the line starts with a blank,
a comment, or the name of a group or directive. The command follows it.
-/

set_option autoImplicit false

namespace WordAssembler

/-- A command that an assembler knows. -/
inductive Command where
  | group (group : Group)
  | directive (directive : Directive)
deriving DecidableEq, Repr

/-- The label column of a line, its command, and the rest. -/
structure Columns where
  label : Option Token
  command : Token
  rest : Bytes
deriving DecidableEq, Repr

/-- The source has something in its first column that is not a comment. -/
def startsLabel : Bytes → Bool
  | [] => false
  | b :: _ => !(Bytes.isGap b || b == byte ':')

namespace Assembler

/-- The names of groups and directives, which are not labels. -/
def isReserved (assembler : Assembler) (name : Bytes) : Bool :=
  assembler.opcodes.isGroup name || assembler.directives.contains name

def columns (assembler : Assembler) (source : Bytes) : Columns :=
  let (first, after) := Token.next source
  if startsLabel source && !assembler.isReserved first.text then
    let (command, rest) := Token.next after
    ⟨some first, command, rest⟩
  else ⟨none, first, after⟩

/-- The source line is a START directive by the name of its command. -/
def isStart (assembler : Assembler) (source : Bytes) : Bool :=
  assembler.directives.lookup? (assembler.columns source).command.text == some .start

/-- The command of a token, which must look like a name. -/
def command? (assembler : Assembler) (token : Token) : Option Command :=
  if token.kind = .label then
    match assembler.opcodes.group? token.text with
    | some group => some (.group group)
    | none => (assembler.directives.lookup? token.text).map .directive
  else none

end Assembler

end WordAssembler

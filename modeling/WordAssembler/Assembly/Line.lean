import WordAssembler.Listing
import WordAssembler.Machine.Group
import WordAssembler.Source.Directive
import WordAssembler.Source.Operand

/-!
Source lines as the assembler keeps them: the text, what was read from it, the word at its
location, and its diagnostics.
-/

set_option autoImplicit false

namespace WordAssembler

/-- A machine instruction as written. If the operand is an equated symbol, `equated` names it and
`relocations` counts its relocatable contributions. -/
structure Instruction where
  group : Group
  function : Bytes
  operand : Operand
  equated : Option Bytes
  relocations : Int
deriving DecidableEq, Repr

/-- What a line says. An invalidated line said something wrong. -/
inductive Statement where
  | instruction (instruction : Instruction)
  | directive (directive : Directive) (operand : Operand)
  | invalidated
deriving DecidableEq, Repr

/-- A line of a program. An addressed line occupies the word at its location. -/
structure Line where
  number : Nat
  source : Bytes
  location : Int
  addressed : Bool
  label : Option Bytes
  comment : Option Bytes
  statement : Option Statement
  word : Word
  flag : Flag
  diagnostics : List Diagnostic
deriving DecidableEq, Repr

namespace Line

/-- A line of which nothing has been read yet. -/
def unread (number : Nat) (source : Bytes) (location : Int) : Line :=
  ⟨number, source, location, false, none, none, none, 0, .absolute, []⟩

/-- The word in place of a line that is wrong, an addition of zero. -/
def idleWord : Word := 0x8000

/-- Gives up the statement of a line, and keeps its label, comment and diagnostics. -/
def invalidate (line : Line) : Line :=
  { line with statement := some .invalidated, word := idleWord, flag := .absolute }

def isInvalidated (line : Line) : Bool := line.statement == some .invalidated

/-- The line has a diagnostic of a severity. -/
def has (line : Line) (severity : Severity) : Bool :=
  line.diagnostics.any (·.key.severity == severity)

/-- The keys of the diagnostics, in the order they were found. -/
def keys (line : Line) : List Key := line.diagnostics.map (·.key)

def directive? (line : Line) : Option (Directive × Operand) :=
  match line.statement with
  | some (.directive directive operand) => some (directive, operand)
  | _ => none

/-- A source that holds nothing but a comment. -/
def isBlank (source : Bytes) : Bool :=
  match source.dropGap with
  | [] => true
  | b :: _ => b == byte ':'

/-- The comment that a source starts with. -/
def comment? (source : Bytes) : Option Bytes :=
  let token := (Token.next source).1
  if token.kind = .comment then some token.text else none

def row (line : Line) : Listing.Row :=
  ⟨line.location, line.addressed, line.word, line.flag, line.number, line.source,
    line.diagnostics⟩

end Line

end WordAssembler

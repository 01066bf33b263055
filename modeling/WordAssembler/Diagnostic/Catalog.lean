import WordAssembler.Diagnostic.Key
import WordAssembler.Text.Blank
import WordAssembler.Text.Lines

/-!
Catalogs of diagnostic messages. A catalog text has one message per line, its key and its wording;
a later line for a key replaces an earlier one. Blank lines are skipped, and so is a line whose
first word is no key, with a note.
-/

set_option autoImplicit false

namespace WordAssembler

/-- The messages of diagnostics: an association list in which a key occurs once. -/
structure Catalog where
  messages : List (Key × Bytes)
deriving DecidableEq, Repr

namespace Catalog

def empty : Catalog := ⟨[]⟩

def insert (catalog : Catalog) (key : Key) (message : Bytes) : Catalog :=
  ⟨(key, message) :: catalog.messages.filter (·.1 != key)⟩

def size (catalog : Catalog) : Nat := catalog.messages.length

def message? (catalog : Catalog) (key : Key) : Option Bytes :=
  (catalog.messages.find? (·.1 == key)).map (·.2)

/-- What is said of a key without a message. -/
def unknownMessage (key : Key) : Bytes := ascii "no message for " ++ key.text

/-- The diagnostic of a key that has a message. -/
def get? (catalog : Catalog) (key : Key) : Option Diagnostic :=
  (catalog.message? key).map (Diagnostic.mk key)

/-- The diagnostic of a key; one without a message says so. -/
def lookup (catalog : Catalog) (key : Key) : Diagnostic :=
  (catalog.get? key).getD ⟨key, unknownMessage key⟩

/-- What a line of a catalog text holds. -/
inductive Entry where
  | blank
  | message (key : Key) (text : Bytes)
  | noKey (word : Bytes)
deriving DecidableEq, Repr

/-- Reads a line: its first word, up to a space, and the rest as message. -/
def readLine (line : Bytes) : Entry :=
  match line.trim with
  | [] => .blank
  | content =>
    let (word, message) := (content.cut? (byte ' ')).getD (content, [])
    match Key.parse? word with
    | some key => .message key message.trim
    | none => .noKey word

def skippedNote (number : Nat) (word : Bytes) : Bytes :=
  ascii "diag: line " ++ Numeral.decimal number ++ ascii ": improper error code '" ++ word ++
    ascii "', skipped"

/-- A catalog as read so far, with the notes on skipped lines, latest first. -/
structure Reading where
  catalog : Catalog
  notes : List Bytes
deriving DecidableEq, Repr

/-- Reads one line, given with its number. -/
def Reading.add (reading : Reading) (numbered : Bytes × Nat) : Reading :=
  match readLine numbered.1 with
  | .blank => reading
  | .message key text => { reading with catalog := reading.catalog.insert key text }
  | .noKey word => { reading with notes := skippedNote numbered.2 word :: reading.notes }

/-- The catalog of a text, unless a line is too long, and the notes on its skipped lines. -/
def parse (text : Bytes) : Option Catalog × List Bytes :=
  let source := Lines.read text
  let reading := (source.lines.zipIdx 1).foldl Reading.add ⟨empty, []⟩
  (if source.tooLong then none else some reading.catalog, reading.notes.reverse)

def fatalMessages : List (Key × String) := [
  (.noStart, "First line of the program must be a START directive."),
  (.afterEnd, "Source found after the END directive."),
  (.tooLarge, "Program exceeds the 1024 word address space."),
  (.endName, "END operand must name the program given to START."),
  (.startOperand, "START operand must be a number between 0 and 1023."),
  (.startLabel, "START requires a program name.")]

def seriousMessages : List (Key × String) := [
  (.labelForm, "Label must start with a letter and contain only letters and digits."),
  (.labelLength, "Label must be between 2 and 32 characters long."),
  (.badFunction, "Function is not valid for the instruction group."),
  (.literalRange, "Literal operand must be between 0 and 1023."),
  (.badCommand, "Not a valid instruction group or directive."),
  (.resetBackward, "RESET target must be beyond the current location counter."),
  (.operandKind, "Operand must be a label, a number or an expression."),
  (.resetOperand, "RESET operand must be a number or an equated symbol between 0 and 1023."),
  (.dumpOperand, "DUMP operand must be 1, 2 or 3."),
  (.haltRange, "Operand must be a number between 0 and 1023."),
  (.externalDefined, "EXTRN symbol is already defined in this program."),
  (.dataOperand, "DAT operand must be a X=, B=, I= or C= literal."),
  (.malformed, "Malformed literal operand."),
  (.operandRequired, "Operand required for this instruction."),
  (.shortRange, "SOPER operand must be a number between 0 and 255."),
  (.starPosition, "The location counter '*' may only be the first operand."),
  (.undefined, "Symbol used in the expression is not defined."),
  (.equateOperand, "EQU operand must be a number, a label or an expression."),
  (.tooManyOperators, "Too many operators in the expression."),
  (.equateLabel, "EQU requires a label."),
  (.operatorCount, "Operator count does not match the operand count."),
  (.resetLabel, "RESET requires a label."),
  (.equateRange, "EQU value must be between 0 and 1023."),
  (.expressionRange, "Expression result must be between 0 and 1023."),
  (.operandUsage, "Symbol cannot be used in an operand expression."),
  (.badOperator, "Expression operators must be '+' or '-'."),
  (.noStar, "Operand expression must start with '*'."),
  (.equateUsage, "Symbol cannot be used in an EQU expression."),
  (.constantUsage, "Symbol cannot be used in an ADC expression."),
  (.undefinedOperand, "Operand symbol is not defined."),
  (.entryUsage, "ENTRY symbol cannot be equated or external."),
  (.entryUndefined, "ENTRY symbol was never defined."),
  (.outsideModule, "Address falls outside the program."),
  (.secondStart, "Only one START directive is allowed."),
  (.equateForward, "Equated symbol used before its definition.")]

def warningMessages : List (Key × String) := [
  (.redefined, "Label is already defined; the first definition is kept."),
  (.trailing, "Unexpected trailing input ignored."),
  (.noOperand, "Operand is ignored by this instruction."),
  (.labelIgnored, "Label is ignored by this directive."),
  (.noEnd, "Program has no END directive."),
  (.truncated, "Too many adjustments; list truncated to 15.")]

def standard : Catalog :=
  (fatalMessages ++ seriousMessages ++ warningMessages).foldl
    (fun catalog (key, message) => catalog.insert key (ascii message)) empty

def lines (messages : List (Key × String)) : List Bytes :=
  messages.map fun (key, message) => key.text ++ [byte ' '] ++ ascii message

/-- The text of the standard catalog, with a blank line between severities. -/
def standardText : Bytes :=
  ofLines (lines fatalMessages ++ [[]] ++ lines seriousMessages ++ [[]] ++ lines warningMessages)

end Catalog

end WordAssembler

import WordAssembler.Text.Unlisted

/-!
Keys of diagnostics: a severity and a code, written such as `ES.17`. Operations of the assembler
fail with a key; a catalog supplies the wording.
-/

set_option autoImplicit false

namespace WordAssembler

/-- How bad a diagnostic is. A fatal one ends the assembly, and a serious one spoils its line. -/
inductive Severity where
  | fatal
  | serious
  | warning
  | other (code : Int)
deriving DecidableEq, Repr

namespace Severity

/-- The three severities, in the order of their codes. -/
def all : List Severity := [.fatal, .serious, .warning]

def name : Severity → Bytes
  | .fatal => ascii "Fatal"
  | .serious => ascii "Serious"
  | .warning => ascii "Warning"
  | .other code => unlisted "Category" code

def letters : Severity → Bytes
  | .fatal => ascii "EF"
  | .serious => ascii "ES"
  | .warning => ascii "EW"
  | .other _ => []

def ofCode (code : Int) : Severity := (listed? all code).getD (.other code)

def ofLetters? (text : Bytes) : Option Severity := all.find? (·.letters == text)

end Severity

/-- What identifies a diagnostic. -/
structure Key where
  severity : Severity
  code : Int
deriving DecidableEq, Repr

namespace Key

/-- The written form of a key, its code in at least two digits. -/
def text (key : Key) : Bytes :=
  key.severity.letters ++ [byte '.'] ++ Numeral.padded 2 key.code

/-- Reads the code of a key, any numeral of a number that is not negative. -/
def readCode? (text : Bytes) : Option Int := (Numeral.readInteger? text).filter (0 ≤ ·)

/-- Reads a key: the letters of a severity, a point and a code. -/
def parse? (text : Bytes) : Option Key :=
  match text.cut? (byte '.') with
  | none => none
  | some (letters, code) =>
    match Severity.ofLetters? letters, readCode? code with
    | some severity, some code => some ⟨severity, code⟩
    | _, _ => none

/-! Fatal diagnostics. -/

def noStart : Key := ⟨.fatal, 1⟩
def afterEnd : Key := ⟨.fatal, 2⟩
def tooLarge : Key := ⟨.fatal, 3⟩
def endName : Key := ⟨.fatal, 5⟩
def startOperand : Key := ⟨.fatal, 6⟩
def startLabel : Key := ⟨.fatal, 7⟩

/-! Serious diagnostics. -/

def labelForm : Key := ⟨.serious, 1⟩
def labelLength : Key := ⟨.serious, 2⟩
def badFunction : Key := ⟨.serious, 3⟩
def literalRange : Key := ⟨.serious, 4⟩
def badCommand : Key := ⟨.serious, 5⟩
def resetBackward : Key := ⟨.serious, 8⟩
def operandKind : Key := ⟨.serious, 9⟩
def resetOperand : Key := ⟨.serious, 10⟩
def dumpOperand : Key := ⟨.serious, 11⟩
def haltRange : Key := ⟨.serious, 12⟩
def externalDefined : Key := ⟨.serious, 13⟩
def dataOperand : Key := ⟨.serious, 14⟩
def malformed : Key := ⟨.serious, 15⟩
def operandRequired : Key := ⟨.serious, 16⟩
def shortRange : Key := ⟨.serious, 17⟩
def starPosition : Key := ⟨.serious, 19⟩
def undefined : Key := ⟨.serious, 20⟩
def equateOperand : Key := ⟨.serious, 21⟩
def tooManyOperators : Key := ⟨.serious, 22⟩
def equateLabel : Key := ⟨.serious, 23⟩
def operatorCount : Key := ⟨.serious, 24⟩
def resetLabel : Key := ⟨.serious, 25⟩
def equateRange : Key := ⟨.serious, 26⟩
def expressionRange : Key := ⟨.serious, 27⟩
def operandUsage : Key := ⟨.serious, 28⟩
def badOperator : Key := ⟨.serious, 30⟩
def noStar : Key := ⟨.serious, 31⟩
def equateUsage : Key := ⟨.serious, 32⟩
def constantUsage : Key := ⟨.serious, 33⟩
def undefinedOperand : Key := ⟨.serious, 34⟩
def entryUsage : Key := ⟨.serious, 35⟩
def entryUndefined : Key := ⟨.serious, 36⟩
def outsideModule : Key := ⟨.serious, 38⟩
def secondStart : Key := ⟨.serious, 40⟩
def equateForward : Key := ⟨.serious, 42⟩

/-! Warnings. -/

def redefined : Key := ⟨.warning, 1⟩
def trailing : Key := ⟨.warning, 2⟩
def noOperand : Key := ⟨.warning, 3⟩
def labelIgnored : Key := ⟨.warning, 5⟩
def noEnd : Key := ⟨.warning, 6⟩
def truncated : Key := ⟨.warning, 8⟩

end Key

/-- A diagnostic with its wording. -/
structure Diagnostic where
  key : Key
  message : Bytes
deriving DecidableEq, Repr

/-- The written form of a diagnostic, such as `[Serious][17] …`. -/
def Diagnostic.text (diagnostic : Diagnostic) : Bytes :=
  [byte '['] ++ diagnostic.key.severity.name ++ ascii "][" ++
    Numeral.decimal diagnostic.key.code ++ ascii "] " ++ diagnostic.message

end WordAssembler

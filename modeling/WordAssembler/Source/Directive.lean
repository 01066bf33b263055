import WordAssembler.Text.Blank
import WordAssembler.Text.LineError
import WordAssembler.Text.Lines
import WordAssembler.Text.Unlisted
import WordAssembler.Text.Uppercase

/-!
Directives, and the sets of directives that an assembler accepts. A set is given by a text with one
name per line; blank lines are skipped.
-/

set_option autoImplicit false

namespace WordAssembler

/-- A command to the assembler itself. -/
inductive Directive where
  | start
  | finish
  | equ
  | eque
  | adc
  | adce
  | entry
  | extrn
  | reset
  | dat
  | nop
deriving DecidableEq, Repr

namespace Directive

/-- The directives, in the order of their codes. -/
def all : List Directive :=
  [.start, .finish, .equ, .eque, .adc, .adce, .entry, .extrn, .reset, .dat, .nop]

def name : Directive → Bytes
  | .start => ascii "START"
  | .finish => ascii "END"
  | .equ => ascii "EQU"
  | .eque => ascii "EQUE"
  | .adc => ascii "ADC"
  | .adce => ascii "ADCE"
  | .entry => ascii "ENTRY"
  | .extrn => ascii "EXTRN"
  | .reset => ascii "RESET"
  | .dat => ascii "DAT"
  | .nop => ascii "NOP"

def nameOfCode (code : Int) : Bytes :=
  ((listed? all code).map name).getD (unlisted "Directive" code)

/-- The directive of a name, in any case. -/
def parse? (text : Bytes) : Option Directive := all.find? (·.name == upper text)

/-- How many operators the expressions of a directive may have. -/
def operatorLimit : Directive → Int
  | .eque | .adce => 3
  | _ => 1

end Directive

/-- The directives that an assembler accepts, each once. -/
structure Directives where
  accepted : List Directive
deriving DecidableEq, Repr

namespace Directives

/-- What can be wrong with a line of a directive list. -/
inductive Fault where
  | wordCount
  | unknown (name : Bytes)
  | tooLong
deriving DecidableEq, Repr

def Fault.message : Fault → Bytes
  | .wordCount => ascii "directive list syntax"
  | .unknown name => ascii "'" ++ name ++ ascii "' is not a directive"
  | .tooLong => Lines.tooLongMessage

/-- The directive on a line, or nothing on a blank line. -/
def readLine (line : Bytes) : Except Fault (Option Directive) :=
  match line.fields with
  | [] => .ok none
  | [name] =>
    match Directive.parse? name with
    | some directive => .ok (some directive)
    | none => .error (.unknown name)
  | _ => .error .wordCount

/-- The list with a directive, at its end if it is new. -/
def adding (accepted : List Directive) (directive : Directive) : List Directive :=
  if accepted.contains directive then accepted else accepted ++ [directive]

/-- Reads lines after those that gave `accepted`; `number` and `last` are the number and the text
of the line read before. -/
def readFrom (tooLong : Bool) (accepted : List Directive) (number : Nat) (last : Bytes) :
    List Bytes → Except (LineError Fault) (List Directive)
  | [] => if tooLong then .error ⟨number, last, .tooLong⟩ else .ok accepted
  | line :: rest =>
    match readLine line with
    | .error fault => .error ⟨number + 1, line, fault⟩
    | .ok none => readFrom tooLong accepted (number + 1) line rest
    | .ok (some directive) => readFrom tooLong (adding accepted directive) (number + 1) line rest

/-- Reads a directive list; the first line that is wrong is the error. -/
def parse (text : Bytes) : Except (LineError Fault) Directives :=
  let source := Lines.read text
  (readFrom source.tooLong [] 0 [] source.lines).map Directives.mk

/-- The accepted directive of a name, in any case. -/
def lookup? (directives : Directives) (name : Bytes) : Option Directive :=
  (Directive.parse? name).filter directives.accepted.contains

def contains (directives : Directives) (name : Bytes) : Bool := (directives.lookup? name).isSome

def size (directives : Directives) : Nat := directives.accepted.length

def standard : Directives := ⟨Directive.all⟩

def standardText : Bytes := ofLines (standard.accepted.map Directive.name)

end Directives

end WordAssembler

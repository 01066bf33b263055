import WordAssembler.Machine.Bitcode
import WordAssembler.Machine.Group
import WordAssembler.Text.LineError
import WordAssembler.Text.Lines

/-!
Opcode tables. A table text has one instruction per line, its group, function and bitcode; blank
lines are skipped. The table keeps the instructions in the order of the text, and a group and an
upper-case function occur in it once.
-/

set_option autoImplicit false

namespace WordAssembler

/-- An instruction of a table, its function in upper case. -/
structure Opcode where
  group : Group
  function : Bytes
  bitcode : Bitcode
deriving DecidableEq, Repr

/-- The instructions of an assembler, in the order of the table text. -/
structure Opcodes where
  entries : List Opcode
deriving DecidableEq, Repr

namespace Opcodes

/-- What can be wrong with a line of a table text. -/
inductive Fault where
  | wordCount
  | groupUnknown (name : Bytes)
  | bitcode
  | duplicate
  | tooLong
deriving DecidableEq, Repr

def groupUnknownMessage (name : Bytes) : Bytes :=
  ascii "'" ++ name ++ ascii "' is not an instruction group"

def Fault.message : Fault → Bytes
  | .wordCount => ascii "opcode table syntax"
  | .groupUnknown name => groupUnknownMessage name
  | .bitcode => ascii "bitcode must be five binary digits"
  | .duplicate => ascii "opcode duplicated"
  | .tooLong => Lines.tooLongMessage

/-- The instruction on a line, or nothing on a blank line. -/
def readLine (line : Bytes) : Except Fault (Option Opcode) :=
  match line.fields with
  | [] => .ok none
  | [group, function, bitcode] =>
    match Group.parse? group with
    | none => .error (.groupUnknown group)
    | some group =>
      match Bitcode.parse? bitcode with
      | none => .error .bitcode
      | some bitcode => .ok (some ⟨group, upper function, bitcode⟩)
  | _ => .error .wordCount

/-- Two entries for one instruction. -/
def sameInstruction (a b : Opcode) : Bool := a.group == b.group && a.function == b.function

/-- Reads lines after those that gave `read`, latest first; `number` and `last` are the number and
the text of the line read before. -/
def readFrom (tooLong : Bool) (read : List Opcode) (number : Nat) (last : Bytes) :
    List Bytes → Except (LineError Fault) (List Opcode)
  | [] => if tooLong then .error ⟨number, last, .tooLong⟩ else .ok read.reverse
  | line :: rest =>
    match readLine line with
    | .error fault => .error ⟨number + 1, line, fault⟩
    | .ok none => readFrom tooLong read (number + 1) line rest
    | .ok (some entry) =>
      if read.any (sameInstruction entry) then .error ⟨number + 1, line, .duplicate⟩
      else readFrom tooLong (entry :: read) (number + 1) line rest

/-- Reads a table text; the first line that is wrong is the error. -/
def parse (text : Bytes) : Except (LineError Fault) Opcodes :=
  let source := Lines.read text
  (readFrom source.tooLong [] 0 [] source.lines).map Opcodes.mk

def hasGroup (table : Opcodes) (group : Group) : Bool := table.entries.any (·.group == group)

/-- The group of a name, if the table has it. -/
def group? (table : Opcodes) (name : Bytes) : Option Group :=
  (Group.parse? name).filter table.hasGroup

/-- The name is that of a group of the table. -/
def isGroup (table : Opcodes) (name : Bytes) : Bool := (table.group? name).isSome

/-- The entry of a function of a group, its name in any case. -/
def find? (table : Opcodes) (group : Group) (function : Bytes) : Option Opcode :=
  table.entries.find? fun entry => entry.group == group && entry.function == upper function

/-- The named group of the table has the function. -/
def isInstruction (table : Opcodes) (group function : Bytes) : Bool :=
  match table.group? group with
  | some group => (table.find? group function).isSome
  | none => false

/-- Why an instruction has no bitcode. -/
inductive Missing where
  | group (group : Group)
  | function (group : Group) (function : Bytes)
deriving DecidableEq, Repr

def Missing.message : Missing → Bytes
  | .group owner => groupUnknownMessage owner.name
  | .function owner name =>
    ascii "'" ++ name ++ ascii "' is not a valid function for " ++ owner.name

def bitcode (table : Opcodes) (group : Group) (function : Bytes) : Except Missing Bitcode :=
  if table.hasGroup group then
    match table.find? group function with
    | some entry => .ok entry.bitcode
    | none => .error (.function group function)
  else .error (.group group)

/-- The bitcode of an instruction at the top of a word. -/
def operation (table : Opcodes) (group : Group) (function : Bytes) : Except Missing Word :=
  (table.bitcode group function).map Bitcode.toWord

/-- The first instruction of the table with a bitcode. -/
def withBitcode? (table : Opcodes) (bitcode : Bitcode) : Option Opcode :=
  table.entries.find? (·.bitcode == bitcode)

/-- The first instruction of the table whose bitcode has the given digits. -/
def withDigits? (table : Opcodes) (digits : Bytes) : Option Opcode :=
  (Bitcode.parse? digits).bind table.withBitcode?

/-- The first instruction of the table that a word can stand for. -/
def decode? (table : Opcodes) (word : Word) : Option Opcode :=
  table.withBitcode? (Bitcode.ofWord word)

/-- An entry of the standard table. -/
def opcode (group : Group) (function : String) (bitcode : Bitcode) : Opcode :=
  ⟨group, ascii function, bitcode⟩

def standard : Opcodes where
  entries := [
    opcode .cntl "HALT" 0b00000, opcode .cntl "DUMP" 0b00001, opcode .cntl "CLRD" 0b00010,
    opcode .cntl "CLRT" 0b00011, opcode .cntl "GOTO" 0b00100, opcode .stack "PUSH" 0b00101,
    opcode .stack "POP" 0b00110, opcode .stack "TEST" 0b00111, opcode .jump "EQUAL" 0b01000,
    opcode .jump "LESS" 0b01001, opcode .jump "GREATER" 0b01010, opcode .jump "DNULL" 0b01011,
    opcode .jump "TNULL" 0b01100, opcode .soper "ADD" 0b10000, opcode .soper "SUB" 0b10001,
    opcode .soper "MUL" 0b10010, opcode .soper "DIV" 0b10011, opcode .soper "OR" 0b10100,
    opcode .soper "AND" 0b10101, opcode .soper "READN" 0b10110, opcode .soper "READC" 0b10110,
    opcode .soper "WRITEN" 0b10111, opcode .soper "WRITEC" 0b10111,
    opcode .moper "ADD" 0b11000, opcode .moper "SUB" 0b11001, opcode .moper "MUL" 0b11010,
    opcode .moper "DIV" 0b11011, opcode .moper "OR" 0b11100, opcode .moper "AND" 0b11101,
    opcode .moper "READN" 0b11110, opcode .moper "READC" 0b11110,
    opcode .moper "WRITEN" 0b11111, opcode .moper "WRITEC" 0b11111]

def line (entry : Opcode) : Bytes :=
  entry.group.name ++ [byte ' '] ++ entry.function ++ [byte ' '] ++ entry.bitcode.digits

def standardText : Bytes := ofLines (standard.entries.map line)

end Opcodes

end WordAssembler

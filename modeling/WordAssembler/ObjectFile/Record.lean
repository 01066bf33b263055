import WordAssembler.Machine.Word
import WordAssembler.ObjectFile.Date
import WordAssembler.Text.Unlisted

/-!
Records of an object file. A record is a line of fields between colons. The header comes first,
linking records export entry points, text records hold the words, modification records tell the
linker what to add to a word, and the end record closes the file.
-/

set_option autoImplicit false

namespace WordAssembler

/-- Whether a word changes when the program is moved. -/
inductive Flag where
  | absolute
  | relocatable
  | modify
  | other (code : Int)
deriving DecidableEq, Repr

namespace Flag

/-- The flags, in the order of their codes. -/
def all : List Flag := [.absolute, .relocatable, .modify]

def name : Flag → Bytes
  | .absolute => ascii "A"
  | .relocatable => ascii "R"
  | .modify => ascii "M"
  | .other code => unlisted "Flag" code

def ofCode (code : Int) : Flag := (listed? all code).getD (.other code)

end Flag

def joinFields (values : List Bytes) : Bytes := [byte ':'].intercalate values

/-- A field of four hexadecimal digits. -/
def hexField (value : Int) : Bytes := Word.hex value 4

/-- What a file says of its program. -/
structure Header where
  name : Bytes
  load : Int
  length : Int
  start : Int
  date : Date
  version : Int
  assembler : Bytes
  linkingCount : Int
  textCount : Int
  modificationCount : Int
deriving DecidableEq, Repr

namespace Header

/-- The header version of an assembler that names none. -/
def standardVersion : Int := 0x9001

/-- The assembler of a header that names none. -/
def standardAssembler : Bytes := ascii "FFA-ASM"

/-- The header of no program. -/
def blank : Header := ⟨[], 0, 0, 0, Date.first, 0, [], 0, 0, 0⟩

/-- The number of records between header and end. -/
def recordCount (header : Header) : Int :=
  Numeral.wrap (header.linkingCount + header.textCount + header.modificationCount)

def line (header : Header) : Bytes :=
  joinFields [ascii "H", header.name, hexField header.load, hexField header.length,
    hexField header.start, header.date.text, hexField header.version, hexField header.recordCount,
    hexField header.linkingCount, hexField header.textCount, hexField header.modificationCount,
    if header.assembler.isEmpty then standardAssembler else header.assembler, header.name]

end Header

/-- An entry point of the program. -/
structure Linking where
  entry : Bytes
  location : Int
  program : Bytes
deriving DecidableEq, Repr

def Linking.line (linking : Linking) : Bytes :=
  joinFields [ascii "L", linking.entry, hexField linking.location, linking.program]

/-- A word of the program, with the number of its adjustments. -/
structure TextRecord where
  location : Int
  word : Word
  flag : Flag
  adjustments : Int
  program : Bytes
deriving DecidableEq, Repr

/-- The most adjustments that a word can have: their number is one hexadecimal digit. -/
def mostAdjustments : Nat := 15

def TextRecord.line (text : TextRecord) : Bytes :=
  joinFields [ascii "T", hexField text.location, hexField text.word.toNat, text.flag.name,
    Numeral.digits 16 (text.adjustments % 16).toNat, text.program]

/-- A label whose address the linker adds or subtracts. -/
structure Adjustment where
  positive : Bool
  label : Bytes
deriving DecidableEq, Repr

def Adjustment.text (adjustment : Adjustment) : Bytes :=
  joinFields [if adjustment.positive then ascii "+" else ascii "-", adjustment.label]

/-- What the linker adds to a word. -/
structure Modification where
  location : Int
  word : Word
  adjustments : List Adjustment
  program : Bytes
deriving DecidableEq, Repr

namespace Modification

/-- A modification that changes nothing. -/
def blank : Modification := ⟨0, 0, [], []⟩

/-- The modification with more adjustments after its own. -/
def append (modification : Modification) (more : List Adjustment) : Modification :=
  { modification with adjustments := modification.adjustments ++ more }

def size (modification : Modification) : Nat := modification.adjustments.length

def line (modification : Modification) : Bytes :=
  joinFields ([ascii "M", hexField modification.location, hexField modification.word.toNat] ++
    modification.adjustments.map Adjustment.text ++ [modification.program])

end Modification

inductive Record where
  | header (header : Header)
  | linking (linking : Linking)
  | text (text : TextRecord)
  | modification (modification : Modification)
  | finish (program : Bytes)
deriving DecidableEq, Repr

def Record.line : Record → Bytes
  | .header h => h.line
  | .linking l => l.line
  | .text t => t.line
  | .modification m => m.line
  | .finish program => joinFields [ascii "E", program]

end WordAssembler

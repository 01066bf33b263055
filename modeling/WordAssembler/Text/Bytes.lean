/-!
Text as the assembler reads and writes it: strings of bytes, usually but not always UTF-8.
-/

set_option autoImplicit false

namespace WordAssembler

abbrev Bytes := List UInt8

/-- The bytes of a text that holds ASCII characters only. -/
def ascii (text : String) : Bytes := text.toList.map Char.toUInt8

abbrev byte (c : Char) : UInt8 := c.toUInt8

/-- The text of a list of lines, each with a line feed after it. -/
def ofLines (lines : List Bytes) : Bytes := lines.flatMap (· ++ [byte '\n'])

/-- The items between separators, empty runs included: there is one more run than separators. -/
def pieces {α : Type} (separates : α → Bool) (items : List α) : List (List α) :=
  items.foldr (fun item runs =>
    if separates item then [] :: runs
    else match runs with
      | [] => [[item]]
      | run :: later => (item :: run) :: later) [[]]

/-- The items without those at the end that satisfy the test. -/
def dropTrailing {α : Type} (test : α → Bool) (items : List α) : List α :=
  (items.reverse.dropWhile test).reverse

namespace Bytes

/-- The text before and after the first occurrence of a separator. -/
def cut? (separator : UInt8) (text : Bytes) : Option (Bytes × Bytes) :=
  match text.dropWhile (· != separator) with
  | _ :: after => some (text.takeWhile (· != separator), after)
  | [] => none

/-- Tabs and spaces, the blanks of a source line. -/
def isGap (b : UInt8) : Bool := b == byte ' ' || b == byte '\t'

/-- The text from its first byte that is neither space nor tab. -/
def dropGap (text : Bytes) : Bytes := text.dropWhile isGap

def isDigit (b : UInt8) : Bool := byte '0' ≤ b && b ≤ byte '9'

def isLetter (b : UInt8) : Bool :=
  (byte 'A' ≤ b && b ≤ byte 'Z') || (byte 'a' ≤ b && b ≤ byte 'z')

def isAlphanumeric (b : UInt8) : Bool := isLetter b || isDigit b

end Bytes

end WordAssembler

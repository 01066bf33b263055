import WordAssembler.Text.Bytes

/-!
Lines of a text. A line ends at a line feed or at the end of the text, one carriage return before
that end is dropped, and a final empty line does not count. Reading stops at a line that does not
fit the line buffer.
-/

set_option autoImplicit false

namespace WordAssembler

/-- The lines read from a text, and whether reading stopped at one that was too long. -/
structure Lines where
  lines : List Bytes
  tooLong : Bool
deriving DecidableEq, Repr

namespace Lines

/-- A line and its line feed fit in a buffer of 65536 bytes. -/
def longest : Nat := 65535

def isLineFeed (b : UInt8) : Bool := b == byte '\n'

def isCarriageReturn (b : UInt8) : Bool := b == byte '\r'

/-- The runs between line feeds, without a final empty one. -/
def runs (text : Bytes) : List Bytes :=
  let all := pieces isLineFeed text
  if all.getLast? = some [] then all.dropLast else all

/-- The line without one carriage return at its end. -/
def dropReturn (line : Bytes) : Bytes :=
  if line.getLast? = some (byte '\r') then line.dropLast else line

def fits (line : Bytes) : Bool := line.length ≤ longest

/-- Reads the lines of a text up to the first that is too long. -/
def read (text : Bytes) : Lines where
  lines := ((runs text).takeWhile fits).map dropReturn
  tooLong := !(runs text).all fits

/-- The lines that the entries of a log take up. An entry starts a line, and goes on to another
after each of its line feeds. -/
def ofEntries (entries : List Bytes) : List Bytes := entries.flatMap (pieces isLineFeed)

/-- What is said of a text with a line that is too long. -/
def tooLongMessage : Bytes := ascii "bufio.Scanner: token too long"

end Lines

end WordAssembler

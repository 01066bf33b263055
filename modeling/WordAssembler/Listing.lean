import WordAssembler.Diagnostic.Key
import WordAssembler.ObjectFile.Record
import WordAssembler.Text.Utf8

/-!
Listings: a row for each source line, with the word at its location if it has one, and below it the
first diagnostics of the line.
-/

set_option autoImplicit false

namespace WordAssembler

namespace Listing

/-- A source line of a listing. -/
structure Row where
  location : Int
  addressed : Bool
  word : Word
  flag : Flag
  number : Int
  source : Bytes
  diagnostics : List Diagnostic
deriving DecidableEq, Repr

def titles : Bytes := ascii "LOC   OBJCODE   FLAG   LINE   SOURCE"

def indent : Int := 30

def mostDiagnostics : Nat := 3

/-- A text in a column, blanks after it. -/
def column (width : Nat) (text : Bytes) : Bytes := text.rightpad width (byte ' ')

/-- The source as shown in a listing of some width: with a width beyond the indent, a source longer
than the room for it is cut. -/
def clip (width : Int) (source : Bytes) : Bytes :=
  let shown := Utf8.shown source
  if indent < width ∧ width - indent < shown.length then
    Utf8.encode (shown.take (width - indent).toNat)
  else source

def Row.line (width : Int) (row : Row) : Bytes :=
  let (location, word, flag) :=
    if row.addressed then (hexField row.location, hexField row.word.toNat, row.flag.name)
    else ([], [], [])
  column 6 location ++ column 10 word ++ column 7 flag ++ column 7 (Numeral.decimal row.number) ++
    clip width row.source

/-- The lines of the diagnostics that a row shows. -/
def Row.diagnosticLines (row : Row) : List Bytes :=
  (row.diagnostics.take mostDiagnostics).map fun d => ascii " --- ERROR: " ++ d.text

end Listing

/-- The listing of an assembly. A positive width clips the source column. -/
structure Listing where
  rows : List Listing.Row
  width : Int
deriving DecidableEq, Repr

namespace Listing

def lines (listing : Listing) : List Bytes :=
  titles :: listing.rows.flatMap fun row => row.line listing.width :: row.diagnosticLines

def render (listing : Listing) : Bytes := ofLines listing.lines

end Listing

end WordAssembler

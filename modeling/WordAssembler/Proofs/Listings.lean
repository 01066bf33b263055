import WordAssembler.Listing
import WordAssembler.Proofs.Conversions
import WordAssembler.Proofs.Decoding
import WordAssembler.Proofs.WhiteSpace

/-!
The layout of listings. A row starts with thirty columns of fixed fields, and its source follows,
whole or cut at the width of the listing. Columns are code points, a stray byte being one as well,
so the cut never leaves a part of a character behind. The lines of a listing are its titles, and for
each row its source line and at most three lines of diagnostics.
-/

set_option autoImplicit false

namespace WordAssembler

/-! ### Text in columns -/

/-- No other character than a line feed holds its byte. -/
theorem Utf8.lineFeed_of_mem {c : Char} (member : byte '\n' ∈ encodeChar c) : c = '\n' := by
  obtain ⟨lead, tail, bytes, count, found⟩ := leading?_encodeChar c []
  rw [bytes] at member
  rcases List.mem_cons.1 member with rfl | later
  · have alone : tail = [] := List.eq_nil_of_length_eq_zero count.symm
    have read : leading? (byte '\n') [] = some '\n' := by decide
    rw [alone, List.nil_append, read] at found
    exact (Option.some.inj found).symm
  · have continues := isContinuation_of_mem bytes later
    exact absurd continues (by decide)

namespace Bytes

/-- The number of code points of a text. A stray byte counts as one. -/
def codePoints (text : Bytes) : Nat := (Utf8.decode text).length

/-- The byte is a blank or prints in ASCII. -/
def isPrinting (b : UInt8) : Bool := 32 ≤ b.toNat && b.toNat < 127

/-- Every byte prints, and so takes one column. -/
def IsPrinted (text : Bytes) : Prop := ∀ b ∈ text, isPrinting b = true

instance (text : Bytes) : Decidable text.IsPrinted :=
  decidable_of_iff (text.all isPrinting = true) List.all_eq_true

theorem IsPrinted.append {first second : Bytes} (before : first.IsPrinted)
    (after : second.IsPrinted) : (first ++ second).IsPrinted :=
  List.forall_mem_append.2 ⟨before, after⟩

/-- What prints stays on its line. -/
theorem IsPrinted.plain {text : Bytes} (printed : text.IsPrinted) : byte '\n' ∉ text := by
  intro member
  exact absurd (printed _ member) (by decide)

/-- The glyphs of a text that prints are its bytes, whatever follows them. -/
theorem IsPrinted.decode_append {text : Bytes} (printed : text.IsPrinted) (rest : Bytes) :
    Utf8.decode (text ++ rest) = (text.map asciiChar).map .char ++ Utf8.decode rest := by
  have spelled : Utf8.encode (text.map asciiChar) = text :=
    encode_asciiChar fun b member => by
      have bounds : 32 ≤ b.toNat ∧ b.toNat < 127 := by simpa [isPrinting] using printed b member
      omega
  conv_lhs => rw [← spelled]
  exact Utf8.decode_encode_append _ _

theorem IsPrinted.codePoints_append {text : Bytes} (printed : text.IsPrinted) (rest : Bytes) :
    codePoints (text ++ rest) = text.length + codePoints rest := by
  rw [codePoints, printed.decode_append, List.length_append, List.length_map, List.length_map,
    codePoints]

theorem isPrinted_of_alphanumeric {text : Bytes}
    (alphanumeric : ∀ b ∈ text, isAlphanumeric b = true) : text.IsPrinted := by
  have checked : ∀ n < 256, isAlphanumeric (UInt8.ofNat n) = true →
      isPrinting (UInt8.ofNat n) = true := by decide +kernel
  intro b member
  have printing := checked b.toNat b.toNat_lt
  rw [UInt8.ofNat_toNat] at printing
  exact printing (alphanumeric b member)

end Bytes

theorem Numeral.isPrinted_decimal (value : Int) : Bytes.IsPrinted (decimal value) := by
  have digits : ∀ n, Bytes.IsPrinted (Numeral.digits 10 n) := fun n =>
    Bytes.isPrinted_of_alphanumeric fun b member => by
      rw [Bytes.isAlphanumeric, isDigit_of_mem_digits member, Bool.or_true]
  cases value with
  | ofNat n => exact digits n
  | negSucc n => exact List.forall_mem_cons.2 ⟨by decide, digits (n + 1)⟩

theorem isPrinted_hexField (value : Int) : Bytes.IsPrinted (hexField value) :=
  Bytes.isPrinted_of_alphanumeric fun _ => isAlphanumeric_of_mem_hexField

/-- A hexadecimal field has four digits, whatever the value. -/
theorem length_hexField (value : Int) : (hexField value).length = 4 := by
  have low : value % 65536 < 65536 := Int.emod_lt_of_pos value (by decide)
  have digits : (Numeral.digits 16 (value % 65536).toNat).length ≤ 4 :=
    Numeral.length_digits_le (by decide) (by decide) (by omega)
  rw [hexField, Word.hex, Word.inField_leftpad (by decide) (by decide), List.length_leftpad]
  exact Nat.max_eq_left digits

theorem isPrinted_unlisted {enumeration : String} (printed : Bytes.IsPrinted (ascii enumeration))
    (code : Int) : Bytes.IsPrinted (unlisted enumeration code) :=
  ((printed.append (by decide)).append (Numeral.isPrinted_decimal code)).append (by decide)

theorem Severity.isPrinted_name (severity : Severity) : Bytes.IsPrinted severity.name := by
  cases severity with
  | fatal => decide
  | serious => decide
  | warning => decide
  | other code => exact isPrinted_unlisted (by decide) code

theorem Flag.length_name {flag : Flag} (listed : flag ∈ all) : flag.name.length = 1 := by
  have checked : ∀ flag ∈ all, flag.name.length = 1 := by decide
  exact checked flag listed

theorem Flag.isPrinted_name {flag : Flag} (listed : flag ∈ all) : flag.name.IsPrinted := by
  have checked : ∀ flag ∈ all, flag.name.IsPrinted := by decide
  exact checked flag listed

/-- A diagnostic with a message of one line is of one line. -/
theorem Diagnostic.text_plain {diagnostic : Diagnostic} (plain : byte '\n' ∉ diagnostic.message) :
    byte '\n' ∉ diagnostic.text := by
  have before : Bytes.IsPrinted ([byte '['] ++ diagnostic.key.severity.name ++ ascii "][" ++
      Numeral.decimal diagnostic.key.code ++ ascii "] ") := by
    have opened : Bytes.IsPrinted [byte '['] := by decide
    have between : Bytes.IsPrinted (ascii "][") := by decide
    have closed : Bytes.IsPrinted (ascii "] ") := by decide
    exact (((opened.append (Severity.isPrinted_name _)).append between).append
      (Numeral.isPrinted_decimal _)).append closed
  intro member
  rcases List.mem_append.1 member with inside | message
  · exact before.plain inside
  · exact plain message

namespace Listing

/-! ### Sources -/

/-- How a source is shown in a listing of some width: whole, if it has room after the thirty columns
or the listing is too narrow to cut it, and otherwise as its first code points, each stray byte as
U+FFFD. -/
structure Shows (width : Int) (source shown : Bytes) : Prop where
  narrow : width ≤ 30 → shown = source
  whole : 30 < width → (source.codePoints : Int) ≤ width - 30 → shown = source
  cut : 30 < width → width - 30 < source.codePoints → Utf8.decode shown =
    ((Utf8.decode source).take (width - 30).toNat).map fun glyph => .char glyph.shown

theorem clip_shows (width : Int) (source : Bytes) : Shows width source (clip width source) := by
  have length : (Utf8.shown source).length = source.codePoints := List.length_map _
  unfold clip indent
  dsimp only
  rw [length]
  constructor
  · intro narrow
    rw [if_neg (by omega)]
  · intro wide room
    rw [if_neg (by omega)]
  · intro wide long
    rw [if_pos ⟨wide, long⟩]
    have decoded := Utf8.decode_encode_append ((Utf8.shown source).take (width - 30).toNat) []
    rw [List.append_nil, show Utf8.decode [] = [] from rfl, List.append_nil] at decoded
    rw [decoded, Utf8.shown, ← List.map_take, List.map_map]
    rfl

/-- In a listing that is wide enough to cut, a source does not go beyond the width. -/
theorem Shows.codePoints_le {width : Int} {source shown : Bytes} (shows : Shows width source shown)
    (wide : 30 < width) : (shown.codePoints : Int) ≤ width - 30 := by
  by_cases room : (source.codePoints : Int) ≤ width - 30
  · rw [shows.whole wide room]
    exact room
  · rw [Bytes.codePoints, shows.cut wide (by omega), List.length_map, List.length_take]
    omega

/-- A line feed in what is shown stands in the source. -/
theorem Shows.plain {width : Int} {source shown : Bytes} (shows : Shows width source shown)
    (plain : byte '\n' ∉ source) : byte '\n' ∉ shown := by
  by_cases wide : 30 < width
  · by_cases room : (source.codePoints : Int) ≤ width - 30
    · rwa [shows.whole wide room]
    · intro member
      rw [← Utf8.bytes_decode shown, shows.cut wide (by omega), List.mem_flatMap] at member
      obtain ⟨glyph, inside, fed⟩ := member
      obtain ⟨origin, taken, rfl⟩ := List.mem_map.1 inside
      have feed := Utf8.lineFeed_of_mem fed
      cases origin with
      | stray b =>
        have other : '\uFFFD' ≠ '\n' := by decide
        exact absurd feed other
      | char c =>
        have bytes := (Utf8.infix_of_mem_decode (List.mem_of_mem_take taken)).subset fed
        exact plain bytes
  · rwa [shows.narrow (by omega)]

/-! ### Rows -/

/-- A row that the columns have room for, with a source of one line. -/
structure Row.IsRegular (row : Row) : Prop where
  number : 0 ≤ row.number ∧ row.number ≤ 9999999
  flag : row.flag ∈ Flag.all
  source : byte '\n' ∉ row.source

def blanks (count : Nat) : Bytes := List.replicate count (byte ' ')

@[simp] theorem length_blanks (count : Nat) : (blanks count).length = count :=
  List.length_replicate

theorem isPrinted_blanks (count : Nat) : Bytes.IsPrinted (blanks count) := by
  intro b member
  rw [List.eq_of_mem_replicate member]
  decide

theorem column_eq (width : Nat) (text : Bytes) :
    column width text = text ++ blanks (width - text.length) := rfl

/-- The fixed fields of a row: its location in the first column, its word in the seventh and its
flag in the seventeenth if it has a word, and its line number in the twenty-fourth. -/
def Row.fields (row : Row) : Bytes :=
  let number := Numeral.decimal row.number
  (if row.addressed then
      hexField row.location ++ blanks 2 ++ hexField row.word.toNat ++ blanks 6 ++ row.flag.name ++
        blanks 6
    else blanks 23) ++ number ++ blanks (7 - number.length)

/-- How the line of a row is laid out in a listing of some width. -/
structure Row.Laid (row : Row) (width : Int) (line : Bytes) : Prop where
  columns : row.fields.length = 30
  fields : (Utf8.decode line).take 30 = row.fields.map fun b => .char (Bytes.asciiChar b)
  source : ∃ shown, line = row.fields ++ shown ∧ Shows width row.source shown
  fits : 30 < width → (line.codePoints : Int) ≤ width

namespace Row.IsRegular

variable {row : Row} (regular : row.IsRegular)
include regular

/-- A line number has at most seven digits. -/
theorem length_number : (Numeral.decimal row.number).length ≤ 7 := by
  obtain ⟨lower, upper⟩ := regular.number
  obtain ⟨n, number⟩ := Int.eq_ofNat_of_zero_le lower
  rw [number] at upper ⊢
  exact Numeral.length_digits_le (by decide) (by decide) (by omega)

/-- The columns add up to thirty, also without a word. -/
theorem length_fields : row.fields.length = 30 := by
  have number := regular.length_number
  have name := Flag.length_name regular.flag
  unfold Row.fields
  cases row.addressed with
  | true =>
    simp only [↓reduceIte, List.length_append, length_hexField, length_blanks, name]
    omega
  | false =>
    simp only [Bool.false_eq_true, ↓reduceIte, List.length_append, length_blanks]
    omega

theorem isPrinted_fields : row.fields.IsPrinted := by
  have number := (Numeral.isPrinted_decimal row.number).append
    (isPrinted_blanks (7 - (Numeral.decimal row.number).length))
  unfold Row.fields
  cases row.addressed with
  | true =>
    have location := (isPrinted_hexField row.location).append (isPrinted_blanks 2)
    have word := (isPrinted_hexField row.word.toNat).append (isPrinted_blanks 6)
    have flag := (Flag.isPrinted_name regular.flag).append (isPrinted_blanks 6)
    simpa only [↓reduceIte, List.append_assoc] using
      location.append (word.append (flag.append number))
  | false =>
    simpa only [Bool.false_eq_true, ↓reduceIte, List.append_assoc] using
      (isPrinted_blanks 23).append number

/-- The columns of a line are the fixed fields, and after them stands the source as it is shown. -/
theorem line_eq (width : Int) : row.line width = row.fields ++ clip width row.source := by
  have name := Flag.length_name regular.flag
  unfold Row.line Row.fields
  cases row.addressed with
  | true => simp only [↓reduceIte, column_eq, length_hexField, name, List.append_assoc]
  | false =>
    have empty : column 6 [] ++ column 10 [] ++ column 7 [] = blanks 23 := rfl
    simp only [Bool.false_eq_true, ↓reduceIte, empty]
    rw [column_eq, ← List.append_assoc (blanks 23)]

theorem laid (width : Int) : row.Laid width (row.line width) := by
  have shows := clip_shows width row.source
  have length := regular.length_fields
  have printed := regular.isPrinted_fields
  rw [regular.line_eq width]
  refine ⟨length, ?_, ⟨_, rfl, shows⟩, fun wide => ?_⟩
  · rw [printed.decode_append, List.map_map, List.take_left' (by rw [List.length_map, length])]
    rfl
  · have room := shows.codePoints_le wide
    rw [printed.codePoints_append, length]
    omega

theorem line_plain (width : Int) : byte '\n' ∉ row.line width := by
  rw [regular.line_eq width]
  intro member
  rcases List.mem_append.1 member with field | source
  · exact regular.isPrinted_fields.plain field
  · exact (clip_shows width row.source).plain regular.source source

end Row.IsRegular

/-! ### Lines -/

theorem length_diagnosticLines (row : Row) :
    row.diagnosticLines.length = min 3 row.diagnostics.length := by
  rw [Row.diagnosticLines, List.length_map, List.length_take, mostDiagnostics]

theorem diagnosticLines_plain {row : Row}
    (plain : ∀ diagnostic ∈ row.diagnostics, byte '\n' ∉ diagnostic.message) :
    ∀ line ∈ row.diagnosticLines, byte '\n' ∉ line := by
  refine List.forall_mem_map.2 fun diagnostic taken member => ?_
  have heading : byte '\n' ∉ ascii " --- ERROR: " := by decide
  rcases List.mem_append.1 member with head | text
  · exact heading head
  · exact Diagnostic.text_plain (plain diagnostic (List.mem_of_mem_take taken)) text

/-- The titles, a line for each row, and a line for each diagnostic that is shown. -/
theorem length_lines (listing : Listing) : listing.lines.length = 1 + listing.rows.length +
    (listing.rows.map fun row => min 3 row.diagnostics.length).sum := by
  have each : ∀ rows : List Row, (rows.map fun row =>
      (row.line listing.width :: row.diagnosticLines).length).sum =
        rows.length + (rows.map fun row => min 3 row.diagnostics.length).sum := by
    intro rows
    induction rows with
    | nil => rfl
    | cons row rows ih =>
      rw [List.map_cons, List.sum_cons, ih, List.map_cons, List.sum_cons, List.length_cons,
        List.length_cons, length_diagnosticLines]
      omega
  rw [lines, List.length_cons, List.length_flatMap, each]
  omega

/-- The lines of a rendered listing are those that it is made of. -/
theorem runs_render {listing : Listing} (regular : ∀ row ∈ listing.rows, row.IsRegular)
    (plain : ∀ row ∈ listing.rows, ∀ diagnostic ∈ row.diagnostics,
      byte '\n' ∉ diagnostic.message) : Lines.runs listing.render = listing.lines := by
  refine Lines.runs_ofLines (List.forall_mem_cons.2 ⟨by decide, fun line member => ?_⟩)
  obtain ⟨row, inside, shown⟩ := List.mem_flatMap.1 member
  rcases List.mem_cons.1 shown with rfl | diagnostic
  · exact (regular row inside).line_plain listing.width
  · exact diagnosticLines_plain (plain row inside) line diagnostic

/-- A listing is its titles and, for each row, the line that shows it and lines of diagnostics. The
line of a row has the fixed fields in its first thirty columns, and does not go beyond the width of
the listing if that leaves room for a source; the source is whole, or cut to this room. With
messages of one line, these are the lines of the listing, three at most for the diagnostics of a
row. -/
theorem rows_fit (listing : Listing) (regular : ∀ row ∈ listing.rows, row.IsRegular) :
    listing.render = ofLines (titles :: listing.rows.flatMap fun row =>
      row.line listing.width :: row.diagnosticLines) ∧
    (∀ row ∈ listing.rows, row.Laid listing.width (row.line listing.width)) ∧
    ((∀ row ∈ listing.rows, ∀ diagnostic ∈ row.diagnostics, byte '\n' ∉ diagnostic.message) →
      Lines.runs listing.render = titles :: listing.rows.flatMap (fun row =>
        row.line listing.width :: row.diagnosticLines) ∧
      (Lines.runs listing.render).length = 1 + listing.rows.length +
        (listing.rows.map fun row => min 3 row.diagnostics.length).sum) := by
  refine ⟨rfl, fun row inside => (regular row inside).laid listing.width, fun plain => ?_⟩
  have lines := runs_render regular plain
  exact ⟨lines, (congrArg List.length lines).trans (length_lines listing)⟩

/-- A row with the last line number, a location beyond a word, a stray byte in its source, and more
diagnostics than are shown. -/
def crowdedRow : Row :=
  ⟨70000, true, 0xFFFF, .modify, 9999999, 0xFF :: ascii "ABCD",
    List.replicate 4 ⟨⟨.serious, 17⟩, ascii "odd"⟩⟩

/-- A narrow listing of the crowded row and of one without a word. -/
def narrowListing : Listing :=
  ⟨[crowdedRow, ⟨0, false, 0, .absolute, 2, ascii "X", []⟩], 33⟩

/-- Three code points of the source are left, the stray byte as one of them. -/
theorem rows_fit_narrowListing :
    crowdedRow ∈ narrowListing.rows ∧ (∀ row ∈ narrowListing.rows, row.IsRegular) ∧
    crowdedRow.Laid 33 (crowdedRow.line 33) ∧
    crowdedRow.line 33 =
      ascii "1170  FFFF      M      9999999" ++ Utf8.encode ['\uFFFD', 'A', 'B'] ∧
    (Lines.runs narrowListing.render).length = 6 := by
  have listed : crowdedRow ∈ narrowListing.rows := List.mem_cons_self
  have regular : ∀ row ∈ narrowListing.rows, row.IsRegular := by
    refine List.forall_mem_cons.2 ⟨?_, List.forall_mem_singleton.2 ?_⟩
    · exact ⟨by decide, by decide, by decide⟩
    · exact ⟨by decide, by decide, by decide⟩
  obtain ⟨_, laid, counted⟩ := rows_fit narrowListing regular
  refine ⟨listed, regular, laid crowdedRow listed, by decide +kernel, ?_⟩
  exact (counted (by decide)).2

end Listing

end WordAssembler

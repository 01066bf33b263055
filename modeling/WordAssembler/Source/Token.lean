import WordAssembler.Text.Unlisted

/-!
Tokens of a source line. Tokens end at a space, a comma or a tab, which belongs to no token; blanks
before a token are skipped. A comment starts at a colon where a token could start and runs to the
end of the line.
-/

set_option autoImplicit false

namespace WordAssembler

namespace Token

/-- What a token looks like. -/
inductive Kind where
  | label
  | literal
  | comment
  | number
  | expression
  | empty
  | error
deriving DecidableEq, Repr

namespace Kind

/-- The kinds, in the order of their codes. -/
def all : List Kind := [.label, .literal, .comment, .number, .expression, .empty, .error]

def name : Kind → Bytes
  | .label => ascii "label"
  | .literal => ascii "literal"
  | .comment => ascii "comment"
  | .number => ascii "number"
  | .expression => ascii "expression"
  | .empty => ascii "empty"
  | .error => ascii "error"

/-- The kind of a code; a token with any other code is an error. -/
def ofCode (code : Int) : Kind := (listed? all code).getD .error

def nameOfCode (code : Int) : Bytes := ((listed? all code).map name).getD (unlisted "Kind" code)

end Kind

/-- The letters that start a literal, before an equals sign. -/
def isLiteralLetter (b : UInt8) : Bool := (ascii "XxBbIiCc").contains b

/-- A letter of a literal and an equals sign. -/
def startsLiteral : Bytes → Bool
  | letter :: sign :: _ => isLiteralLetter letter && sign == byte '='
  | _ => false

/-- A letter, then letters and digits. -/
def isName : Bytes → Bool
  | first :: rest => Bytes.isLetter first && rest.all Bytes.isAlphanumeric
  | [] => false

def isMark (b : UInt8) : Bool := b == byte '*' || b == byte '+' || b == byte '-'

/-- Letters, digits and marks, at least one of them a mark. -/
def isExpression (text : Bytes) : Bool :=
  text.all (fun b => Bytes.isAlphanumeric b || isMark b) && text.any isMark

def kindOf (text : Bytes) : Kind :=
  if text.isEmpty then .empty
  else if text.head? = some (byte ':') then .comment
  else if startsLiteral text then .literal
  else if text.all Bytes.isDigit then .number
  else if isName text then .label
  else if isExpression text then .expression
  else .error

/-- The bytes that end a token. -/
def isSeparator (b : UInt8) : Bool := b == byte ' ' || b == byte ',' || b == byte '\t'

/-- Blanks and carriage returns, which a comment does not end with. -/
def isCommentEnd (b : UInt8) : Bool := Bytes.isGap b || b == byte '\r'

end Token

/-- A piece of a source line. -/
structure Token where
  text : Bytes
  kind : Token.Kind
deriving DecidableEq, Repr

namespace Token

/-- The first token of a text that starts with no blank, and what follows its separator. -/
def first (text : Bytes) : Token × Bytes :=
  match text with
  | [] => (⟨[], .empty⟩, [])
  | b :: _ =>
    if b = byte ':' then (⟨dropTrailing isCommentEnd text, .comment⟩, [])
    else
      let word := text.takeWhile (!isSeparator ·)
      (⟨word, kindOf word⟩, (text.dropWhile (!isSeparator ·)).drop 1)

/-- The next token of a line, and what follows its separator. -/
def next (line : Bytes) : Token × Bytes := first line.dropGap

/-- What follows a token is shorter than the text it was read from. -/
theorem first_rest_lt {text : Bytes} (nonempty : text ≠ []) :
    (first text).2.length < text.length := by
  cases text with
  | nil => contradiction
  | cons b rest =>
    have shorter := (List.dropWhile_suffix (l := b :: rest) (!isSeparator ·)).length_le
    simp only [List.length_cons] at shorter
    simp only [first]
    split
    · simp
    · simp only [List.length_drop, List.length_cons]
      omega

theorem next_text_lt {text : Bytes} (more : (first text).2.dropGap ≠ []) :
    (first text).2.dropGap.length < text.length := by
  have nonempty : text ≠ [] := by
    rintro rfl
    exact more rfl
  exact Nat.lt_of_le_of_lt (List.dropWhile_suffix _).length_le (first_rest_lt nonempty)

/-- The tokens of a text that starts with no blank, after those in `read`, latest first. -/
def allFrom (read : List Token) (text : Bytes) : List Token :=
  if more : (first text).2.dropGap ≠ [] then
    have := next_text_lt more
    allFrom ((first text).1 :: read) (first text).2.dropGap
  else ((first text).1 :: read).reverse
termination_by text.length

/-- The tokens of a line, in order; a blank line has a single empty token. -/
def all (line : Bytes) : List Token := allFrom [] line.dropGap

end Token

end WordAssembler

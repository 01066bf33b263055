import WordAssembler.Text.Letter
import WordAssembler.Text.Numeral
import WordAssembler.Text.Utf8

/-!
Lexemes of a profile script: names, numbers, strings, marks, and the ends of lines. Blank lines,
comments, and line ends between brackets leave no lexeme. A line that is not blank starts in the
first column. A script ends at the first NUL character outside a string.
-/

set_option autoImplicit false

namespace WordAssembler.Script

/-- A piece of a script. Of a number with a fraction or an exponent only that it is one is kept. -/
inductive Lexeme where
  | name (text : List Char)
  | integer (value : Nat)
  | float
  | text (value : List Char)
  | mark (c : Char)
  | lineEnd
deriving DecidableEq, Repr

/-- The characters of a script, with a line feed for each line end. -/
def normalize : List Char → List Char → List Char
  | done, [] => done.reverse
  | done, '\r' :: '\n' :: rest => normalize ('\n' :: done) rest
  | done, '\r' :: rest => normalize ('\n' :: done) rest
  | done, c :: rest => normalize (c :: done) rest

def isNameStart (c : Char) : Bool := c.isAlpha || c == '_' || Letter.isLetter c

def isNamePart (c : Char) : Bool := isNameStart c || c.isDigit

/-! ### Numbers -/

/-- The value of a digit in a base. -/
def digitIn? (base : Nat) (c : Char) : Option Nat :=
  let value? :=
    if c.isDigit then some (c.toNat - 48)
    else if 'a' ≤ c ∧ c ≤ 'f' then some (c.toNat - 87)
    else if 'A' ≤ c ∧ c ≤ 'F' then some (c.toNat - 55)
    else none
  value?.filter (· < base)

def numberOf (base : Nat) (digits : List Char) : Nat :=
  digits.foldl (fun value c => value * base + (digitIn? base c).getD 0) 0

/-- Reads digits of a base after its mark; a number with more than 63 bits is refused in the bases
where `bounded` says so. -/
def readMarked? (base : Nat) (bounded : Bool) (rest : List Char) : Option (Lexeme × List Char) :=
  let digits := rest.takeWhile fun c => (digitIn? base c).isSome
  let value := numberOf base digits
  if digits.isEmpty || (bounded && Numeral.powerOfTwo 63 ≤ value) then none
  else some (.integer value, rest.drop digits.length)

/-- Reads the exponent of a float after its letter. -/
def readExponent? : List Char → Option (Lexeme × List Char)
  | sign :: rest =>
    if sign = '+' ∨ sign = '-' then
      match rest with
      | c :: _ => if c.isDigit then some (.float, rest.dropWhile Char.isDigit) else none
      | [] => none
    else if sign.isDigit then some (.float, rest.dropWhile Char.isDigit)
    else none
  | [] => none

/-- Reads what follows the whole part of a decimal number. -/
def readDecimalRest? (whole rest : List Char) : Option (Lexeme × List Char) :=
  match rest with
  | '.' :: after =>
    match after.dropWhile Char.isDigit with
    | 'e' :: exponent | 'E' :: exponent => readExponent? exponent
    | others => some (.float, others)
  | 'e' :: exponent | 'E' :: exponent => readExponent? exponent
  | _ =>
    if whole.head? = some '0' ∧ whole.any (· != '0') then none
    else some (.integer (numberOf 10 whole), rest)

/-- Reads a number that starts with a digit. A decimal number other than zero has no leading
zero. -/
def readNumber? (text : List Char) : Option (Lexeme × List Char) :=
  match text with
  | '0' :: 'x' :: rest | '0' :: 'X' :: rest => readMarked? 16 false rest
  | '0' :: 'o' :: rest | '0' :: 'O' :: rest => readMarked? 8 true rest
  | '0' :: 'b' :: rest | '0' :: 'B' :: rest => readMarked? 2 true rest
  | _ => readDecimalRest? (text.takeWhile Char.isDigit) (text.dropWhile Char.isDigit)

/-! ### Strings -/

/-- Reads the body of a string up to its quote, and the text after it; a backslash keeps the next
character from ending the string. -/
def readBody? (quote : Char) (body : List Char) : List Char → Option (List Char × List Char)
  | '\\' :: c :: rest => readBody? quote (c :: '\\' :: body) rest
  | c :: rest =>
    if c = quote then some (body.reverse, rest)
    else if c = '\n' ∨ c = '\\' then none
    else readBody? quote (c :: body) rest
  | [] => none

/-- Reads the body of a string up to three quotes. -/
def readTripleBody? (quote : Char) (body : List Char) : List Char → Option (List Char × List Char)
  | '\\' :: c :: rest => readTripleBody? quote (c :: '\\' :: body) rest
  | a :: b :: c :: rest =>
    if a = quote ∧ b = quote ∧ c = quote then some (body.reverse, rest)
    else readTripleBody? quote (a :: body) (b :: c :: rest)
  | _ => none

/-- The character of a code that strings may name: neither a surrogate nor beyond the last. -/
def charOfCode? (code : Nat) : Option Char := if code.isValidChar then some (Char.ofNat code) else none

def readHex? (count : Nat) (text : List Char) : Option (Nat × List Char) :=
  let digits := text.take count
  if digits.length = count ∧ digits.all fun c => (digitIn? 16 c).isSome then
    some (numberOf 16 digits, text.drop count)
  else none

/-- Reads one to three octal digits. -/
def readOctal (text : List Char) : Nat × List Char :=
  let digits := (text.take 3).takeWhile fun c => (digitIn? 8 c).isSome
  (numberOf 8 digits, text.drop digits.length)

def shortEscape? : Char → Option Char
  | 'a' => some '\x07'
  | 'b' => some '\x08'
  | 'f' => some '\x0c'
  | 'n' => some '\n'
  | 'r' => some '\r'
  | 't' => some '\t'
  | 'v' => some '\x0b'
  | '\\' => some '\\'
  | '\'' => some '\''
  | '"' => some '"'
  | _ => none

/-- Numeric escapes stand for ASCII characters only. -/
def asciiChar? (code : Nat) : Option Char := if code < 128 then some (Char.ofNat code) else none

/-- Reads the escape after a backslash: the characters it stands for, and the rest. -/
def readEscape? (text : List Char) : Option (List Char × List Char) :=
  match text with
  | [] => none
  | '\n' :: rest => some ([], rest)
  | 'x' :: rest => do
    let (code, rest) ← readHex? 2 rest
    pure ([← asciiChar? code], rest)
  | 'u' :: rest => do
    let (code, rest) ← readHex? 4 rest
    pure ([← charOfCode? code], rest)
  | 'U' :: rest => do
    let (code, rest) ← readHex? 8 rest
    pure ([← charOfCode? code], rest)
  | c :: rest =>
    if (digitIn? 8 c).isSome then do
      let (code, rest) := readOctal text
      pure ([← asciiChar? code], rest)
    else do
      pure ([← shortEscape? c], rest)

/-- The text of a string body with escapes; `fuel` bounds the number of its characters. -/
def unescapeFrom? : Nat → List Char → List Char → Option (List Char)
  | _, done, [] => some done.reverse
  | 0, _, _ => none
  | fuel + 1, done, c :: rest =>
    if c = '\\' then
      match readEscape? rest with
      | some (chars, rest) => unescapeFrom? fuel (chars.reverse ++ done) rest
      | none => none
    else unescapeFrom? fuel (c :: done) rest

/-- The text of a string body with escapes. -/
def unescape? (body : List Char) : Option (List Char) := unescapeFrom? body.length [] body

/-- Reads a string after its first quote; a raw one has no escapes. -/
def readString? (quote : Char) (raw : Bool) (rest : List Char) : Option (Lexeme × List Char) := do
  let (body, rest) ← match rest with
    | a :: b :: after =>
      if a = quote ∧ b = quote then readTripleBody? quote [] after else readBody? quote [] rest
    | _ => readBody? quote [] rest
  if raw then pure (.text body, rest) else pure (.text (← unescape? body), rest)

/-! ### Scripts -/

def isMark (c : Char) : Bool := ['=', '+', '-', '.', ',', ';', '(', ')', '[', ']'].contains c

def readLexeme? (text : List Char) : Option (Lexeme × List Char) :=
  match text with
  | [] => none
  | c :: rest =>
    if c = '"' ∨ c = '\'' then readString? c false rest
    else if c.isDigit then readNumber? text
    else
      match c, rest with
      | 'r', '"' :: after => readString? '"' true after
      | 'r', '\'' :: after => readString? '\'' true after
      | '.', d :: _ =>
        if d.isDigit then readDecimalRest? [] text else some (.mark '.', rest)
      | _, _ =>
        if isMark c then some (.mark c, rest)
        else if isNameStart c then
          some (.name (text.takeWhile isNamePart), text.dropWhile isNamePart)
        else none

/-- How deep the brackets are after a lexeme. -/
def depthAfter (depth : Nat) : Lexeme → Nat
  | .mark '(' | .mark '[' => depth + 1
  | .mark ')' | .mark ']' => depth - 1
  | _ => depth

/-- Where the reader of lexemes is: lexemes read, latest first, how deep in brackets, and whether
at the start of a line. -/
structure Position where
  read : List Lexeme
  depth : Nat
  atStart : Bool
deriving DecidableEq, Repr

def isGap (c : Char) : Bool := c == ' ' || c == '\t'

/-- The character is no part of a comment. -/
def endsComment (c : Char) : Bool := c == '\n' || c == '\x00'

/-- Reads the lexemes of a text from a position; `fuel` bounds the number of its characters. -/
def readFrom? : Nat → Position → List Char → Option (List Lexeme)
  | 0, here, rest => if rest.isEmpty then some (.lineEnd :: here.read).reverse else none
  | fuel + 1, here, rest =>
    match rest with
    | [] => some (.lineEnd :: here.read).reverse
    | '\\' :: '\n' :: after => readFrom? fuel { here with atStart := false } after
    | c :: after =>
      if c = '\x00' then some (.lineEnd :: here.read).reverse
      else if c = '\n' then
        if here.depth = 0 then readFrom? fuel ⟨.lineEnd :: here.read, 0, true⟩ after
        else readFrom? fuel here after
      else if c = '#' then readFrom? fuel here (after.dropWhile (!endsComment ·))
      else if isGap c then
        match after.dropWhile isGap with
        | [] => readFrom? fuel here []
        | d :: later =>
          if here.atStart ∧ here.depth = 0 ∧ d ≠ '#' ∧ !endsComment d then none
          else readFrom? fuel here (d :: later)
      else
        match readLexeme? rest with
        | some (lexeme, later) =>
          readFrom? fuel ⟨lexeme :: here.read, depthAfter here.depth lexeme, false⟩ later
        | none => none

def lexemes? (script : Bytes) : Option (List Lexeme) :=
  let text := normalize [] (Utf8.shown script)
  readFrom? text.length ⟨[], 0, true⟩ text

end WordAssembler.Script

import WordAssembler.Profile.Script.Lexeme

/-!
Statements of a profile script. A line holds statements between semicolons, each an assignment of
an expression to a name or an expression by itself. Expressions are sums and differences of names,
numbers, strings and empty lists, and of attributes and calls of these.
-/

set_option autoImplicit false

namespace WordAssembler.Script

inductive Expr where
  | name (text : List Char)
  | integer (value : Nat)
  | float
  | text (value : List Char)
  | emptyList
  | negative (operand : Expr)
  | positive (operand : Expr)
  | sum (left right : Expr)
  | difference (left right : Expr)
  | attribute (owner : Expr) (name : List Char)
  | call (function : Expr) (arguments : List Expr)

inductive Statement where
  | assign (name : List Char) (value : Expr)
  | evaluate (value : Expr)

/-- Words that are no names. -/
def keywords : List String :=
  ["and", "break", "continue", "def", "elif", "else", "for", "if", "in", "lambda", "load", "not",
    "or", "pass", "return", "while", "as", "async", "await", "class", "del", "except", "finally",
    "from", "global", "import", "is", "nonlocal", "raise", "try", "with", "yield"]

def isKeyword (name : List Char) : Bool := (keywords.map String.toList).contains name

mutual

/-- Reads a sum or difference of any number of terms. -/
def readSum? : Nat → List Lexeme → Option (Expr × List Lexeme)
  | 0, _ => none
  | fuel + 1, lexemes =>
    match readTerm? fuel lexemes with
    | some (left, rest) => readSumAfter? fuel left rest
    | none => none

/-- Reads further terms of a sum. -/
def readSumAfter? : Nat → Expr → List Lexeme → Option (Expr × List Lexeme)
  | 0, _, _ => none
  | fuel + 1, left, lexemes =>
    match lexemes with
    | .mark '+' :: rest =>
      match readTerm? fuel rest with
      | some (right, rest) => readSumAfter? fuel (.sum left right) rest
      | none => none
    | .mark '-' :: rest =>
      match readTerm? fuel rest with
      | some (right, rest) => readSumAfter? fuel (.difference left right) rest
      | none => none
    | _ => some (left, lexemes)

/-- Reads a term with its signs. -/
def readTerm? : Nat → List Lexeme → Option (Expr × List Lexeme)
  | 0, _ => none
  | fuel + 1, lexemes =>
    match lexemes with
    | .mark '-' :: rest => (readTerm? fuel rest).map fun (operand, rest) => (.negative operand, rest)
    | .mark '+' :: rest => (readTerm? fuel rest).map fun (operand, rest) => (.positive operand, rest)
    | _ =>
      match readAtom? fuel lexemes with
      | some (atom, rest) => readSuffixes? fuel atom rest
      | none => none

/-- Reads a name, a number, a string, an empty list, or an expression in brackets. -/
def readAtom? : Nat → List Lexeme → Option (Expr × List Lexeme)
  | 0, _ => none
  | fuel + 1, lexemes =>
    match lexemes with
    | .name text :: rest => if isKeyword text then none else some (.name text, rest)
    | .integer value :: rest => some (.integer value, rest)
    | .float :: rest => some (.float, rest)
    | .text value :: rest => some (.text value, rest)
    | .mark '[' :: .mark ']' :: rest => some (.emptyList, rest)
    | .mark '(' :: rest =>
      match readSum? fuel rest with
      | some (inner, .mark ')' :: rest) => some (inner, rest)
      | _ => none
    | _ => none

/-- Reads attributes and calls after an expression. -/
def readSuffixes? : Nat → Expr → List Lexeme → Option (Expr × List Lexeme)
  | 0, _, _ => none
  | fuel + 1, owner, lexemes =>
    match lexemes with
    | .mark '.' :: .name text :: rest =>
      if isKeyword text then none else readSuffixes? fuel (.attribute owner text) rest
    | .mark '.' :: _ => none
    | .mark '(' :: rest =>
      match readArguments? fuel rest with
      | some (arguments, rest) => readSuffixes? fuel (.call owner arguments) rest
      | none => none
    | _ => some (owner, lexemes)

/-- Reads the arguments of a call and its closing bracket. -/
def readArguments? : Nat → List Lexeme → Option (List Expr × List Lexeme)
  | 0, _ => none
  | fuel + 1, lexemes =>
    match lexemes with
    | .mark ')' :: rest => some ([], rest)
    | _ =>
      match readSum? fuel lexemes with
      | some (first, .mark ')' :: rest) => some ([first], rest)
      | some (first, .mark ',' :: rest) =>
        (readArguments? fuel rest).map fun (others, rest) => (first :: others, rest)
      | _ => none

end

/-- Reads an expression that is all of a list of lexemes. -/
def readExpr? (lexemes : List Lexeme) : Option Expr :=
  match readSum? (6 * lexemes.length + 6) lexemes with
  | some (value, []) => some value
  | _ => none

def readStatement? (lexemes : List Lexeme) : Option Statement :=
  match lexemes with
  | .name name :: .mark '=' :: value =>
    if isKeyword name then none else (readExpr? value).map (.assign name)
  | _ => (readExpr? lexemes).map .evaluate

/-- Reads the statements of a line; the last may be followed by a semicolon. -/
def readLine? (lexemes : List Lexeme) : Option (List Statement) :=
  let parts := pieces (· == .mark ';') lexemes
  let parts := if 1 < parts.length ∧ parts.getLast? = some [] then parts.dropLast else parts
  parts.mapM readStatement?

def read? (script : Bytes) : Option (List Statement) := do
  let lexemes ← lexemes? script
  let lines := (pieces (· == .lineEnd) lexemes).filter (!·.isEmpty)
  pure (← lines.mapM readLine?).flatten

end WordAssembler.Script

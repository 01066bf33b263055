import WordAssembler.Profile.Script.Statement

/-!
Running a profile script. A name is given a value once; if the script gives it one anywhere, it has
no other value before. Strings have a `replace` method, integers can be added and subtracted, and
strings and lists can be added.
-/

set_option autoImplicit false

namespace WordAssembler.Script

/-- The value of an expression. Of values that no profile can use only the sort is kept. -/
inductive Value where
  | text (value : List Char)
  | integer (value : Int)
  | float
  | list
  | replaceMethod (owner : List Char)
  | other
deriving DecidableEq, Repr

/-- The text that starts with a given one, without it. -/
def strip? : List Char → List Char → Option (List Char)
  | [], text => some text
  | _ :: _, [] => none
  | a :: expected, b :: text => if a = b then strip? expected text else none

/-- Replaces occurrences from left to right; `skip` characters belong to the last one found. -/
def replaceFrom (old new : List Char) (skip : Nat) (done : List Char) : List Char → List Char
  | [] => done.reverse
  | c :: rest =>
    match skip with
    | skip + 1 => replaceFrom old new skip done rest
    | 0 =>
      if (strip? old (c :: rest)).isSome then
        replaceFrom old new (old.length - 1) (new.reverse ++ done) rest
      else replaceFrom old new 0 (c :: done) rest

/-- The text with each occurrence of one text replaced by another. The empty text occurs before
each character and at the end. -/
def replace (old new text : List Char) : List Char :=
  if old.isEmpty then new ++ text.flatMap (· :: new) else replaceFrom old new 0 [] text

def Value.add? : Value → Value → Option Value
  | .text a, .text b => some (.text (a ++ b))
  | .integer a, .integer b => some (.integer (a + b))
  | .float, .float | .float, .integer _ | .integer _, .float => some .float
  | .list, .list => some .list
  | _, _ => none

def Value.subtract? : Value → Value → Option Value
  | .integer a, .integer b => some (.integer (a - b))
  | .float, .float | .float, .integer _ | .integer _, .float => some .float
  | _, _ => none

def Value.negate? : Value → Option Value
  | .integer a => some (.integer (-a))
  | .float => some .float
  | _ => none

def Value.affirm? : Value → Option Value
  | .integer a => some (.integer a)
  | .float => some .float
  | _ => none

def Value.attribute? (value : Value) (name : List Char) : Option Value :=
  match value with
  | .text owner => if name = "replace".toList then some (.replaceMethod owner) else none
  | _ => none

def Value.call? : Value → List Value → Option Value
  | .replaceMethod owner, [.text old, .text new] => some (.text (replace old new owner))
  | _, _ => none

abbrev Scope := List (List Char × Value)

def Scope.get? (scope : Scope) (name : List Char) : Option Value :=
  (scope.find? (·.1 == name)).map (·.2)

/-- Names that every script knows besides those it is given. -/
def universal : List String :=
  ["None", "True", "False", "abs", "all", "any", "bool", "bytes", "chr", "dict", "dir",
    "enumerate", "fail", "float", "getattr", "hasattr", "hash", "int", "len", "list", "max", "min",
    "ord", "print", "range", "repr", "reversed", "sorted", "str", "tuple", "type", "zip"]

/-- What the names of a script refer to: those it assigns, those assigned so far, and those given
from outside. -/
structure Scopes where
  assigned : List (List Char)
  current : Scope
  given : Scope

def Scopes.get? (scopes : Scopes) (name : List Char) : Option Value :=
  if scopes.assigned.contains name then scopes.current.get? name
  else
    match scopes.given.get? name with
    | some value => some value
    | none => if (universal.map String.toList).contains name then some .other else none

mutual

def Expr.eval? (scopes : Scopes) : Expr → Option Value
  | .name word => scopes.get? word
  | .integer value => some (.integer value)
  | .float => some .float
  | .text chars => some (.text chars)
  | .emptyList => some .list
  | .negative operand => (operand.eval? scopes).bind Value.negate?
  | .positive operand => (operand.eval? scopes).bind Value.affirm?
  | .sum left right =>
    match left.eval? scopes, right.eval? scopes with
    | some a, some b => a.add? b
    | _, _ => none
  | .difference left right =>
    match left.eval? scopes, right.eval? scopes with
    | some a, some b => a.subtract? b
    | _, _ => none
  | .attribute owner word => (owner.eval? scopes).bind (·.attribute? word)
  | .call function arguments =>
    match function.eval? scopes, Expr.evalAll? scopes arguments with
    | some f, some values => f.call? values
    | _, _ => none

def Expr.evalAll? (scopes : Scopes) : List Expr → Option (List Value)
  | [] => some []
  | first :: rest =>
    match first.eval? scopes, Expr.evalAll? scopes rest with
    | some value, some values => some (value :: values)
    | _, _ => none

end

def assignedNames (statements : List Statement) : List (List Char) :=
  statements.filterMap fun
    | .assign name _ => some name
    | .evaluate _ => none

def runFrom? (scopes : Scopes) : List Statement → Option Scope
  | [] => some scopes.current
  | .assign name value :: rest =>
    match value.eval? scopes with
    | some value => runFrom? { scopes with current := (name, value) :: scopes.current } rest
    | none => none
  | .evaluate value :: rest =>
    match value.eval? scopes with
    | some _ => runFrom? scopes rest
    | none => none

/-- Runs a script with names given from outside: the names it assigns and their values. -/
def run? (given : Scope) (script : Bytes) : Option Scope := do
  let statements ← read? script
  let assigned := assignedNames statements
  if assigned.Nodup then runFrom? ⟨assigned, [], given⟩ statements else none

end WordAssembler.Script

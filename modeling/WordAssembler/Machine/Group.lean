import WordAssembler.Text.Unlisted
import WordAssembler.Text.Uppercase

/-!
Instruction groups. An instruction is a function of one of five groups.
-/

set_option autoImplicit false

namespace WordAssembler

/-- An instruction group. No opcode table holds a group with an unlisted code. -/
inductive Group where
  | cntl
  | stack
  | jump
  | soper
  | moper
  | other (code : Int)
deriving DecidableEq, Repr

namespace Group

/-- The five groups, in the order of their codes. -/
def all : List Group := [.cntl, .stack, .jump, .soper, .moper]

def name : Group → Bytes
  | .cntl => ascii "CNTL"
  | .stack => ascii "STACK"
  | .jump => ascii "JUMP"
  | .soper => ascii "SOPER"
  | .moper => ascii "MOPER"
  | .other code => unlisted "Category" code

def ofCode (code : Int) : Group := (listed? all code).getD (.other code)

/-- The group of a name, in any case. -/
def parse? (text : Bytes) : Option Group := all.find? (·.name == upper text)

end Group

end WordAssembler

import WordAssembler.Text.Message

/-!
Faults found at a line of a text: its number, counted from 1, the line, and what is wrong with it.
-/

set_option autoImplicit false

namespace WordAssembler

structure LineError (ε : Type) where
  number : Nat
  line : Bytes
  cause : ε
deriving DecidableEq, Repr

/-- The words for a fault at a line, given those for its cause. -/
def LineError.message {ε : Type} (causeMessage : ε → Bytes) (fault : LineError ε) : Bytes :=
  Message.fill (ascii "line %d '%v' %v")
    [.integer fault.number, .text fault.line, .text (causeMessage fault.cause)]

end WordAssembler

import WordAssembler.Machine.Word

/-!
Bitcodes: the five bits at the top of a word that select its instruction.
-/

set_option autoImplicit false

namespace WordAssembler

abbrev Bitcode := BitVec 5

namespace Bitcode

/-- The bit that a binary digit stands for. -/
def bit? (b : UInt8) : Option Bool :=
  if b = byte '0' then some false else if b = byte '1' then some true else none

/-- Reads five binary digits. -/
def parse? (text : Bytes) : Option Bitcode :=
  match text with
  | [a, b, c, d, e] => do
    let bits := [← bit? a, ← bit? b, ← bit? c, ← bit? d, ← bit? e]
    pure (BitVec.ofNat 5 (bits.foldl (fun value bit => 2 * value + bit.toNat) 0))
  | _ => none

def digits (bitcode : Bitcode) : Bytes := Word.binaryDigits bitcode.toNat 5

/-- A word that holds the bitcode in its top bits and zeros below. -/
def toWord (bitcode : Bitcode) : Word := bitcode.setWidth 16 <<< 11

/-- The bitcode in the top bits of a word. -/
def ofWord (word : Word) : Bitcode := (word >>> 11).setWidth 5

end Bitcode

end WordAssembler

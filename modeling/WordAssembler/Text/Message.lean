import WordAssembler.Text.Numeral

/-!
Messages shown to the user: a template whose holes are filled in order, `%d` by an integer with its
digits in groups of three and `%v` by a text as it stands. The wording does not depend on the
reader's language, so every choice of locales selects the undetermined language.
-/

set_option autoImplicit false

namespace WordAssembler

/-- What fills a hole of a message. -/
inductive Filling where
  | integer (value : Int)
  | text (value : Bytes)
deriving DecidableEq, Repr

namespace Filling

def bytes : Filling → Bytes
  | .integer value => Numeral.grouped value
  | .text value => value

end Filling

namespace Message

/-- The language tag of the messages. -/
def language (_locales : List Bytes) : Bytes := ascii "und"

/-- Fills the holes of a template in order; `done` holds the text so far, latest byte first. -/
def fillFrom (done : Bytes) : Bytes → List Filling → Bytes
  | [], _ => done.reverse
  | [b], _ => (b :: done).reverse
  | b :: c :: rest, fillings =>
    if b = byte '%' ∧ (c = byte 'd' ∨ c = byte 'v') then
      match fillings with
      | filling :: later => fillFrom (filling.bytes.reverse ++ done) rest later
      | [] => fillFrom (c :: b :: done) rest []
    else fillFrom (b :: done) (c :: rest) fillings

/-- The template with its holes filled in order. -/
def fill (template : Bytes) (fillings : List Filling) : Bytes := fillFrom [] template fillings

end Message

end WordAssembler

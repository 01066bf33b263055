import WordAssembler.Text.Utf8

/-!
White space in catalog texts: the characters with the Unicode property White_Space. A stray byte is
never white space.
-/

set_option autoImplicit false

namespace WordAssembler

/-- The White_Space characters. -/
def isBlank (c : Char) : Bool :=
  let code := c.toNat
  (0x09 ≤ code && code ≤ 0x0D) || code == 0x20 || code == 0x85 || code == 0xA0 || code == 0x1680 ||
  (0x2000 ≤ code && code ≤ 0x200A) || code == 0x2028 || code == 0x2029 || code == 0x202F ||
  code == 0x205F || code == 0x3000

namespace Glyph

def isBlank : Glyph → Bool
  | .char c => WordAssembler.isBlank c
  | .stray _ => false

end Glyph

namespace Bytes

def ofGlyphs (glyphs : List Glyph) : Bytes := glyphs.flatMap Glyph.bytes

/-- The text without white space at its ends. -/
def trim (text : Bytes) : Bytes :=
  ofGlyphs (dropTrailing Glyph.isBlank ((Utf8.decode text).dropWhile Glyph.isBlank))

/-- The nonempty runs of text between white space. -/
def fields (text : Bytes) : List Bytes :=
  ((pieces Glyph.isBlank (Utf8.decode text)).filter (!·.isEmpty)).map ofGlyphs

end Bytes

end WordAssembler

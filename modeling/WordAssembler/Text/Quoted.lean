import WordAssembler.Text.Printable
import WordAssembler.Text.Utf8

/-!
Quoted text: between double quotes, with a backslash before quotes and backslashes, the short
escapes for the common controls, and hexadecimal escapes for everything else that does not print.
-/

set_option autoImplicit false

namespace WordAssembler.Quoted

/-- Lower-case hexadecimal digits filled with zeros to a width. -/
def hexDigits (width value : Nat) : Bytes :=
  ((Nat.toDigits 16 value).map Char.toUInt8).leftpad width (byte '0')

/-- How a character stands between quotes. -/
def escapeChar (c : Char) : Bytes :=
  if c = '"' ∨ c = '\\' then byte '\\' :: Utf8.encodeChar c
  else if Printable.isPrintable c then Utf8.encodeChar c
  else match c.toNat with
    | 0x07 => ascii "\\a"
    | 0x08 => ascii "\\b"
    | 0x0C => ascii "\\f"
    | 0x0A => ascii "\\n"
    | 0x0D => ascii "\\r"
    | 0x09 => ascii "\\t"
    | 0x0B => ascii "\\v"
    | code =>
      if code < 0x80 then ascii "\\x" ++ hexDigits 2 code
      else if code < 0x10000 then ascii "\\u" ++ hexDigits 4 code
      else ascii "\\U" ++ hexDigits 8 code

/-- How a glyph stands between quotes; a stray byte is escaped. -/
def escape : Glyph → Bytes
  | .char c => escapeChar c
  | .stray b => ascii "\\x" ++ hexDigits 2 b.toNat

def quote (text : Bytes) : Bytes :=
  byte '"' :: ((Utf8.decode text).flatMap escape ++ [byte '"'])

end WordAssembler.Quoted

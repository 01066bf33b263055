import WordAssembler.Text.Bytes

/-!
UTF-8 over arbitrary bytes. Every byte string decodes to a list of glyphs, each a character or a
byte that belongs to none, and the glyphs' bytes in order are the string again.
-/

set_option autoImplicit false

namespace WordAssembler

/-- A character, or a stray byte that begins no character. -/
inductive Glyph where
  | char (c : Char)
  | stray (b : UInt8)
deriving DecidableEq, Repr

namespace Glyph

/-- The bytes a glyph was read from. -/
def bytes : Glyph → Bytes
  | .char c => String.utf8EncodeChar c
  | .stray b => [b]

/-- What a glyph is shown as: a stray byte is the replacement character U+FFFD. -/
def shown : Glyph → Char
  | .char c => c
  | .stray _ => '\uFFFD'

end Glyph

namespace Utf8

/-- How many bytes follow a leading byte. -/
def following (lead : UInt8) : Nat :=
  if lead < 0x80 then 0 else if lead < 0xE0 then 1 else if lead < 0xF0 then 2 else 3

/-- The significant bits of a leading byte. -/
def leadBits (lead : UInt8) : Nat :=
  if lead < 0x80 then lead.toNat else if lead < 0xE0 then lead.toNat % 32
  else if lead < 0xF0 then lead.toNat % 16 else lead.toNat % 8

/-- The character that starts with `lead` and continues in `rest`, if these bytes are its encoding. -/
def leading? (lead : UInt8) (rest : Bytes) : Option Char :=
  let tail := rest.take (following lead)
  let c := Char.ofNat (tail.foldl (fun bits b => bits * 64 + b.toNat % 64) (leadBits lead))
  if String.utf8EncodeChar c = lead :: tail then some c else none

/-- Decodes after skipping the rest of a character already read. -/
def decodeFrom (skip : Nat) (read : List Glyph) : Bytes → List Glyph
  | [] => read.reverse
  | b :: rest =>
    match skip with
    | skip + 1 => decodeFrom skip read rest
    | 0 =>
      match leading? b rest with
      | some c => decodeFrom (following b) (.char c :: read) rest
      | none => decodeFrom 0 (.stray b :: read) rest

def decode (text : Bytes) : List Glyph := decodeFrom 0 [] text

def encodeChar (c : Char) : Bytes := String.utf8EncodeChar c

def encode (text : List Char) : Bytes := text.flatMap encodeChar

/-- The text as shown: each stray byte becomes U+FFFD. -/
def shown (text : Bytes) : List Char := (decode text).map Glyph.shown

end Utf8

end WordAssembler

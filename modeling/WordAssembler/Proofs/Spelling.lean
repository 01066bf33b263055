import WordAssembler.Proofs.Start

/-!
Words that are taken for START. Decoding loses no byte, and the long s is the only character beyond
ASCII whose upper case is a letter of START. So a word whose upper case is START is a name just when
it is written without a long s.
-/

set_option autoImplicit false

namespace WordAssembler

namespace Utf8

theorem encodeChar_of_leading? {lead : UInt8} {rest : Bytes} {c : Char}
    (found : leading? lead rest = some c) :
    encodeChar c = lead :: rest.take (following lead) := by
  unfold leading? at found
  dsimp only at found
  split at found
  · rename_i same
    cases found
    exact same
  · cases found

/-- The bytes of what was decoded are those read before and those that are not skipped. -/
theorem bytes_decodeFrom (skip : Nat) (read : List Glyph) (text : Bytes) :
    (decodeFrom skip read text).flatMap Glyph.bytes =
      read.reverse.flatMap Glyph.bytes ++ text.drop skip := by
  induction text generalizing skip read with
  | nil => simp [decodeFrom]
  | cons b rest ih =>
    cases skip with
    | succ skip => exact ih skip read
    | zero =>
      -- A character takes up its following bytes, which are skipped; any other byte stands alone.
      rw [decodeFrom]
      split
      · rename_i c found
        have bytes : Glyph.bytes (.char c) = b :: rest.take (following b) :=
          encodeChar_of_leading? found
        rw [ih, List.reverse_cons, List.flatMap_append, List.flatMap_singleton, bytes,
          List.append_assoc, List.cons_append, List.take_append_drop, List.drop_zero]
      · rw [ih, List.reverse_cons, List.flatMap_append, List.flatMap_singleton, List.append_assoc]
        rfl

/-- The bytes of the glyphs of a text are the text. -/
theorem bytes_decode (text : Bytes) : (decode text).flatMap Glyph.bytes = text := by
  rw [decode, bytes_decodeFrom]
  rfl

end Utf8

namespace Uppercase

/-- The long s, a character beyond ASCII whose upper case is S. -/
def longS : Char := '\u017F'

def startLetters : List Char := ['S', 'T', 'A', 'R', 'T']

/-- Of the characters in the table, only the long s has a letter of START as its upper case. -/
theorem image_not_startLetter : (ranges.all fun range => range.codes.all fun code =>
    code == longS.toNat ||
      !startLetters.contains (Char.ofNat ((code : Int) + range.shift).toNat)) = true := by
  decide +kernel

/-- A character of ASCII whose upper case is a letter of START is a letter. -/
theorem isLetter_of_toUpper : ∀ code < 128, (Char.ofNat code).toUpper ∈ startLetters →
    Bytes.isLetter (UInt8.ofNat code) = true := by
  decide +kernel

/-- A character whose upper case is a letter of START is a letter of ASCII, or the long s. -/
theorem letter_or_longS {c : Char} (member : char c ∈ startLetters) :
    (∃ b, Utf8.encodeChar c = [b] ∧ Bytes.isLetter b = true) ∨ c = longS := by
  by_cases ascii : c.toNat < 128
  · rw [char, if_pos ascii] at member
    refine Or.inl ⟨UInt8.ofNat c.toNat, ?_, ?_⟩
    · rw [Utf8.encodeChar_eq, if_pos (by omega)]
    · exact isLetter_of_toUpper c.toNat ascii (by simpa using member)
  · refine Or.inr ?_
    cases found : ranges.find? (·.covers c.toNat) with
    | none =>
      -- Outside the table the character is its own upper case, and START is ASCII.
      rw [char, if_neg ascii, found] at member
      have small : startLetters.all (fun letter => decide (letter.toNat < 128)) = true := by decide
      exact absurd (of_decide_eq_true (List.all_eq_true.1 small c member)) ascii
    | some range =>
      rw [char, if_neg ascii, found] at member
      have covers := List.find?_some (p := fun range : CaseRange => range.covers c.toNat) found
      have image := List.all_eq_true.1 image_not_startLetter range
        (List.mem_of_find?_eq_some found)
      have only := List.all_eq_true.1 image c.toNat (range.mem_codes covers)
      have same : c.toNat = longS.toNat := by simpa [member] using only
      rw [← Char.ofNat_toNat c, same, Char.ofNat_toNat]

end Uppercase

/-- The bytes of the long s. -/
def longS : Bytes := Utf8.encodeChar Uppercase.longS

/-- The bytes of a glyph of a text stand in it. -/
theorem Utf8.infix_of_mem_decode {text : Bytes} {glyph : Glyph} (member : glyph ∈ decode text) :
    glyph.bytes <:+: text := by
  obtain ⟨before, after, split⟩ := List.append_of_mem member
  refine ⟨before.flatMap Glyph.bytes, after.flatMap Glyph.bytes, ?_⟩
  rw [← bytes_decode text, split, List.flatMap_append, List.flatMap_cons, List.append_assoc]

/-- A glyph of a word that is taken for START is a letter of ASCII or the long s. -/
theorem letter_of_upper {text : Bytes} (start : upper text = ascii "START") {glyph : Glyph}
    (member : glyph ∈ Utf8.decode text) :
    (∃ b, glyph.bytes = [b] ∧ Bytes.isLetter b = true) ∨ glyph.bytes = longS := by
  have letters : (Utf8.shown text).map Uppercase.char = Uppercase.startLetters := by
    rw [← Utf8.shown_encode ((Utf8.shown text).map Uppercase.char)]
    rw [upper] at start
    rw [start]
    decide +kernel
  have capital : Uppercase.char glyph.shown ∈ Uppercase.startLetters := by
    rw [← letters]
    exact List.mem_map_of_mem (List.mem_map_of_mem member)
  cases glyph with
  | stray b =>
    have other : Uppercase.char (Glyph.stray b).shown ∉ Uppercase.startLetters := by
      rw [Glyph.shown]
      decide +kernel
    exact absurd capital other
  | char c =>
    rcases Uppercase.letter_or_longS capital with letter | long
    · exact Or.inl letter
    · exact Or.inr (by rw [show c = Uppercase.longS from long]; rfl)

/-- A word that is taken for START consists of letters, unless it has a long s. -/
theorem isLetter_of_upper {text : Bytes} (start : upper text = ascii "START")
    (plain : ¬ longS <:+: text) : ∀ b ∈ text, Bytes.isLetter b = true := by
  intro b member
  rw [← Utf8.bytes_decode text] at member
  obtain ⟨glyph, known, here⟩ := List.mem_flatMap.1 member
  rcases letter_of_upper start known with ⟨letter, bytes, isLetter⟩ | long
  · rw [bytes, List.mem_singleton] at here
    rw [here]
    exact isLetter
  · exact absurd (long ▸ Utf8.infix_of_mem_decode known) plain

namespace Token

theorem isDigit_of_isLetter {b : UInt8} (letter : Bytes.isLetter b = true) :
    Bytes.isDigit b = false := by
  have last : (byte '9').toNat = 57 ∧ (byte 'A').toNat = 65 ∧ (byte 'a').toNat = 97 := by decide
  simp only [Bytes.isLetter, Bytes.isDigit, Bool.or_eq_true, Bool.and_eq_true, decide_eq_true_eq,
    UInt8.le_iff_toNat_le, Bool.and_eq_false_iff, decide_eq_false_iff_not] at letter ⊢
  omega

theorem isName_of_letters {text : Bytes} (nonempty : text ≠ [])
    (letters : ∀ b ∈ text, Bytes.isLetter b = true) : isName text = true := by
  cases text with
  | nil => exact absurd rfl nonempty
  | cons first rest =>
    simp only [isName, Bool.and_eq_true, List.all_eq_true]
    refine ⟨letters first List.mem_cons_self, ?_⟩
    intro b later
    simp [Bytes.isAlphanumeric, letters b (List.mem_cons_of_mem _ later)]

/-- A letter, then letters and digits, is a name. -/
theorem kindOf_of_isName {text : Bytes} (name : isName text = true) : kindOf text = .label := by
  cases text with
  | nil => cases name
  | cons first rest =>
    have spelled := name
    simp only [isName, Bool.and_eq_true, List.all_eq_true] at spelled
    have letter : Bytes.isAlphanumeric first = true := by simp [Bytes.isAlphanumeric, spelled.1]
    have colon : first ≠ byte ':' := Bytes.ne_of_isAlphanumeric letter rfl
    have literal : startsLiteral (first :: rest) = false := by
      cases rest with
      | nil => rfl
      | cons second rest =>
        have equals : second ≠ byte '=' :=
          Bytes.ne_of_isAlphanumeric (spelled.2 second List.mem_cons_self) rfl
        simp [startsLiteral, equals]
    have digit := isDigit_of_isLetter spelled.1
    simp [kindOf, colon, literal, digit, name]

theorem kindOf_of_letters {text : Bytes} (nonempty : text ≠ [])
    (letters : ∀ b ∈ text, Bytes.isLetter b = true) : kindOf text = .label :=
  kindOf_of_isName (isName_of_letters nonempty letters)

/-- A word that is taken for START is a name just when it is written without a long s. -/
theorem kindOf_of_upper {text : Bytes} (start : upper text = ascii "START") :
    kindOf text = .label ↔ ¬ longS <:+: text := by
  constructor
  · intro label long
    have lead : (0xC5 : UInt8) ∈ text := long.subset (by decide)
    have alphanumeric := (letters_of_label label).2 _ lead
    revert alphanumeric
    decide
  · intro plain
    refine kindOf_of_letters ?_ (isLetter_of_upper start plain)
    rintro rfl
    revert start
    decide

end Token

end WordAssembler

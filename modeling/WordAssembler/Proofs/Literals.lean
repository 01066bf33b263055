import Mathlib.Data.List.TakeWhile
import WordAssembler.Proofs.Numerals

/-!
What numbers and literals are written like. A number is a decimal numeral; a literal is a letter, an
equals sign, and a hexadecimal numeral that may stand in white space, a binary numeral, a signed
decimal numeral, or one or two characters in quotes. What is written like that and fits a word is
read with its value; whatever else looks like a number or a literal is malformed.
-/

set_option autoImplicit false

namespace WordAssembler

/-! ### White space around a text -/

/-- What stands between items to drop is kept if none of it is to be dropped. -/
theorem dropTrailing_dropWhile_append {α : Type} {test : α → Bool} {before middle after : List α}
    (leading : ∀ item ∈ before, test item = true) (kept : ∀ item ∈ middle, test item = false)
    (trailing : ∀ item ∈ after, test item = true) :
    dropTrailing test ((before ++ (middle ++ after)).dropWhile test) = middle := by
  have stays : ∀ items : List α, (∀ item ∈ items, test item = false) →
      items.dropWhile test = items := by
    intro items none
    cases items with
    | nil => rfl
    | cons first rest =>
      exact List.dropWhile_cons_of_neg (by simp [none first List.mem_cons_self])
  rw [List.dropWhile_append_of_pos leading]
  cases middle with
  | nil =>
    rw [List.nil_append, List.dropWhile_eq_nil_iff.2 trailing]
    rfl
  | cons first rest =>
    rw [List.cons_append, List.dropWhile_cons_of_neg (by simp [kept first List.mem_cons_self]),
      ← List.cons_append, dropTrailing, List.reverse_append,
      List.dropWhile_append_of_pos fun item member => trailing item (List.mem_reverse.1 member),
      stays _ fun item member => kept item (List.mem_reverse.1 member), List.reverse_reverse]

namespace Bytes

def IsBlank (text : Bytes) : Prop :=
  ∃ chars : List Char, (∀ c ∈ chars, isBlank c = true) ∧ text = Utf8.encode chars

theorem isBlank_ofGlyphs {glyphs : List Glyph} (blank : ∀ glyph ∈ glyphs, glyph.isBlank = true) :
    IsBlank (ofGlyphs glyphs) := by
  induction glyphs with
  | nil => exact ⟨[], by simp, rfl⟩
  | cons glyph rest ih =>
    obtain ⟨first, later⟩ := List.forall_mem_cons.1 blank
    obtain ⟨chars, blanks, bytes⟩ := ih later
    cases glyph with
    | stray b => cases first
    | char c =>
      refine ⟨c :: chars, List.forall_mem_cons.2 ⟨first, blanks⟩, ?_⟩
      rw [ofGlyphs, List.flatMap_cons, Utf8.encode, List.flatMap_cons]
      exact congrArg _ bytes

/-- A text is its trimmed text between white space. -/
theorem padded_trim (text : Bytes) : ∃ before after, IsBlank before ∧ IsBlank after ∧
    text = before ++ (text.trim ++ after) := by
  generalize started : (Utf8.decode text).dropWhile Glyph.isBlank = rest
  have whole : text = ofGlyphs ((Utf8.decode text).takeWhile Glyph.isBlank) ++ ofGlyphs rest := by
    rw [← started, ofGlyphs, ofGlyphs, ← List.flatMap_append, List.takeWhile_append_dropWhile,
      Utf8.bytes_decode]
  have ended : rest = dropTrailing Glyph.isBlank rest ++
      (rest.reverse.takeWhile Glyph.isBlank).reverse := by
    rw [dropTrailing, ← List.reverse_append, List.takeWhile_append_dropWhile, List.reverse_reverse]
  refine ⟨ofGlyphs ((Utf8.decode text).takeWhile Glyph.isBlank),
    ofGlyphs (rest.reverse.takeWhile Glyph.isBlank).reverse,
    isBlank_ofGlyphs fun glyph => List.mem_takeWhile_imp,
    isBlank_ofGlyphs fun glyph member => List.mem_takeWhile_imp (List.mem_reverse.1 member), ?_⟩
  have glued : text.trim ++ ofGlyphs (rest.reverse.takeWhile Glyph.isBlank).reverse =
      ofGlyphs rest := by
    rw [trim, started, ofGlyphs, ofGlyphs, ← List.flatMap_append, ← ended, ofGlyphs]
  rw [glued]
  exact whole

def asciiChar (b : UInt8) : Char := Char.ofNat b.toNat

/-- A byte of ASCII that is not white space. -/
def IsGraphic (b : UInt8) : Prop := b.toNat < 128 ∧ isBlank (asciiChar b) = false

theorem encodeChar_asciiChar {b : UInt8} (small : b.toNat < 128) :
    Utf8.encodeChar (asciiChar b) = [b] := by
  have code : (asciiChar b).toNat = b.toNat := by
    have checked : ∀ n < 128, (Char.ofNat n).toNat = n := by decide
    exact checked _ small
  rw [Utf8.encodeChar_eq, code, if_pos (by omega), UInt8.ofNat_toNat]

theorem encode_asciiChar {text : Bytes} (small : ∀ b ∈ text, b.toNat < 128) :
    Utf8.encode (text.map asciiChar) = text := by
  induction text with
  | nil => rfl
  | cons b rest ih =>
    obtain ⟨first, later⟩ := List.forall_mem_cons.1 small
    rw [List.map_cons, Utf8.encode, List.flatMap_cons, encodeChar_asciiChar first]
    exact congrArg _ (ih later)

/-- White space around a text of ASCII without any is trimmed. -/
theorem trim_padded {before text after : Bytes} (leading : IsBlank before)
    (graphic : ∀ b ∈ text, IsGraphic b) (trailing : IsBlank after) :
    trim (before ++ (text ++ after)) = text := by
  obtain ⟨first, blankFirst, rfl⟩ := leading
  obtain ⟨last, blankLast, rfl⟩ := trailing
  have spelled := encode_asciiChar fun b member => (graphic b member).1
  have decoded : Utf8.decode (Utf8.encode first ++ (text ++ Utf8.encode last)) =
      first.map .char ++ ((text.map asciiChar).map .char ++ last.map .char) := by
    conv_lhs => rw [← spelled]
    rw [Utf8.encode, Utf8.encode, Utf8.encode, ← List.flatMap_append, ← List.flatMap_append]
    refine (Utf8.decodeFrom_encode _ []).trans ?_
    simp
  rw [trim, decoded, dropTrailing_dropWhile_append]
  · conv_rhs => rw [← spelled]
    rw [ofGlyphs, List.flatMap_map]
    rfl
  · simpa [Glyph.isBlank] using blankFirst
  · intro glyph member
    obtain ⟨c, inside, rfl⟩ := List.mem_map.1 member
    obtain ⟨b, known, rfl⟩ := List.mem_map.1 inside
    exact (graphic b known).2
  · simpa [Glyph.isBlank] using blankLast

theorem isGraphic_of_digitValue? {b : UInt8} {place : Nat}
    (digit : Numeral.digitValue? b = some place) : IsGraphic b := by
  have checked : ∀ n < 256, (Numeral.digitValue? (UInt8.ofNat n)).isSome = true →
      n < 128 ∧ isBlank (Char.ofNat n) = false := by decide +kernel
  refine checked b.toNat b.toNat_lt ?_
  rw [UInt8.ofNat_toNat, digit]
  rfl

end Bytes

/-! ### Readers of words -/

namespace Word

open Numeral (Denotes)

theorem readUnsigned?_eq_some_iff {base : Nat} {text : Bytes} {value : Nat} :
    readUnsigned? base text = some value ↔ Denotes base text value ∧ value < 2 ^ 32 := by
  have width : Numeral.powerOfTwo 32 = 2 ^ 32 := rfl
  rw [readUnsigned?, Option.filter_eq_some_iff, Numeral.read?_eq_some_iff, width,
    decide_eq_true_eq]

/-- A hexadecimal numeral of 32 bits is read, with white space around it. -/
theorem parseHex_of_denotes {before run after : Bytes} {value : Nat} (leading : before.IsBlank)
    (numeral : Denotes 16 run value) (trailing : after.IsBlank) (small : value < 2 ^ 32)
    (digits : Int) : parseHex (before ++ (run ++ after)) digits = .ok (convert value digits) := by
  have graphic : ∀ b ∈ run, Bytes.IsGraphic b := by
    intro b member
    obtain ⟨place, digit, _⟩ := numeral.digit member
    exact Bytes.isGraphic_of_digitValue? digit
  rw [parseHex, Bytes.trim_padded leading graphic trailing,
    readUnsigned?_eq_some_iff.2 ⟨numeral, small⟩]

theorem inRange_bits {value : Int} :
    inRange value bits = true ↔ -32768 ≤ value ∧ value < 65536 := by
  have half : ((Numeral.powerOfTwo ((bits : Int).toNat - 1) : Nat) : Int) = 32768 := rfl
  have full : ((Numeral.powerOfTwo (bits : Int).toNat : Nat) : Int) = 65536 := rfl
  have width : isWidth bits = true := by decide
  rw [inRange, width, half, full, Bool.true_and, Bool.and_eq_true, decide_eq_true_eq,
    decide_eq_true_eq]

/-- A numeral of 32 bits keeps its value if that is small, and becomes negative otherwise. -/
theorem convert_unsigned {value : Int} (lower : 0 ≤ value) (upper : value < 2 ^ 32) :
    convert value 32 = if value < 2 ^ 31 then value else value - 2 ^ 32 := by
  have half : ((Numeral.powerOfTwo ((32 : Int).toNat - 1) : Nat) : Int) = 2 ^ 31 := rfl
  have width : isWidth 32 = true := by decide
  rw [convert, if_pos width, half]
  by_cases small : value < 2 ^ 31
  · rw [if_pos ⟨lower, small⟩, if_pos small]
  · rw [if_neg (by omega), if_neg (by omega), if_pos (by omega), if_neg small]
    rfl

/-- A negative word is stored as its remainder. -/
theorem convert_negative {value : Int} (lower : -32768 ≤ value) (upper : value < 0) :
    convert value bits = value % 65536 := by
  have half : ((Numeral.powerOfTwo ((bits : Int).toNat - 1) : Nat) : Int) = 32768 := rfl
  have width : isWidth bits = true := by decide
  rw [convert, if_pos width, half, if_neg (by omega), if_pos (by omega)]
  omega

end Word

/-! ### The look of a literal -/

theorem Token.kindOf_of_isLiteralLetter {letter : UInt8} {body : Bytes}
    (known : isLiteralLetter letter = true) :
    kindOf (letter :: byte '=' :: body) = .literal := by
  have colon : letter ≠ byte ':' := by
    rintro rfl
    cases known
  simp [kindOf, colon, startsLiteral, known]

/-- A literal starts with a letter and an equals sign. -/
theorem Token.split_of_literal {text : Bytes} (literal : kindOf text = .literal) :
    ∃ letter body, text = letter :: byte '=' :: body := by
  have starts : startsLiteral text = true := by
    unfold kindOf at literal
    repeat' split at literal
    all_goals first | assumption | cases literal
  match text, starts with
  | letter :: sign :: body, starts =>
    simp only [startsLiteral, Bool.and_eq_true, beq_iff_eq] at starts
    exact ⟨letter, body, by rw [starts.2]⟩

namespace Operand

open Numeral (Denotes)

/-! ### Literals -/

/-- A literal with a letter and a body, its form, and its value. -/
inductive Literal : UInt8 → Bytes → Kind → Int → Prop
  | hex {letter : UInt8} {before run after : Bytes} {value : Nat}
      (named : letter = byte 'X' ∨ letter = byte 'x') (leading : before.IsBlank)
      (digits : Denotes 16 run value) (trailing : after.IsBlank) (fits : value ≤ 65535) :
      Literal letter (before ++ (run ++ after)) .hex value
  | binary {letter : UInt8} {run : Bytes} {value : Nat}
      (named : letter = byte 'B' ∨ letter = byte 'b') (digits : Denotes 2 run value)
      (fits : value ≤ 65535) : Literal letter run .binary value
  | integer {letter : UInt8} {text : Bytes} {value : Int}
      (named : letter = byte 'I' ∨ letter = byte 'i') (digits : Numeral.Signed text value)
      (lower : -32768 ≤ value) (upper : value ≤ 32767) :
      Literal letter text .integer (value % 65536)
  | single {letter high : UInt8} (named : letter = byte 'C' ∨ letter = byte 'c') :
      Literal letter [byte '\'', high, byte '\''] .char (high.toNat * 256)
  | double {letter high low : UInt8} (named : letter = byte 'C' ∨ letter = byte 'c') :
      Literal letter [byte '\'', high, low, byte '\''] .char (high.toNat * 256 + low.toNat)

/-- A text that is written like a number or a literal, its form, and its value. -/
inductive Spells : Bytes → Kind → Int → Prop
  | number {run : Bytes} {value : Nat} (digits : Denotes 10 run value) (fits : value ≤ 65535) :
      Spells run .number value
  | literal {letter : UInt8} {body : Bytes} {kind : Kind} {value : Int}
      (form : Literal letter body kind value) : Spells (letter :: byte '=' :: body) kind value

variable {letter : UInt8} {text body : Bytes} {kind : Kind} {value : Int}

/-- White space around the digits is of no account, and a large numeral is refused also where it
encodes a negative number. -/
theorem hexValue?_eq_some_iff : hexValue? body = some value ↔
    ∃ before run after, ∃ n : Nat, before.IsBlank ∧ after.IsBlank ∧
      body = before ++ (run ++ after) ∧ Denotes 16 run n ∧ n ≤ 65535 ∧ value = n := by
  constructor
  · intro read
    unfold hexValue? Word.parseHex at read
    cases numeral : Word.readUnsigned? 16 body.trim with
    | none =>
      rw [numeral] at read
      cases read
    | some n =>
      obtain ⟨digits, small⟩ := Word.readUnsigned?_eq_some_iff.1 numeral
      obtain ⟨before, after, leading, trailing, padded⟩ := Bytes.padded_trim body
      rw [numeral] at read
      dsimp only at read
      rw [Word.convert_unsigned (Int.natCast_nonneg n) (by omega)] at read
      refine ⟨before, body.trim, after, n, leading, trailing, padded, digits, ?_⟩
      -- Beyond 31 bits the numeral encodes a negative number, which is no word.
      by_cases positive : (n : Int) < 2 ^ 31
      · rw [if_pos positive] at read
        split at read
        · rename_i range
          have bounds := Word.inRange_bits.1 range.2
          cases read
          exact ⟨by omega, rfl⟩
        · cases read
      · rw [if_neg positive, if_neg (by omega)] at read
        cases read
  · rintro ⟨before, run, after, n, leading, trailing, rfl, digits, fits, rfl⟩
    have kept : Word.convert n 32 = n := by
      rw [Word.convert_unsigned (Int.natCast_nonneg n) (by omega), if_pos (by omega)]
    rw [hexValue?, Word.parseHex_of_denotes leading digits trailing (by omega), kept]
    exact if_pos ⟨Int.natCast_nonneg n, Word.inRange_bits.2 (by omega)⟩

theorem binaryValue?_eq_some_iff : binaryValue? body = some value ↔
    ∃ n : Nat, Denotes 2 body n ∧ n ≤ 65535 ∧ value = n := by
  unfold binaryValue? Word.parseBinary
  constructor
  · intro read
    cases numeral : Word.readUnsigned? 2 body with
    | none =>
      rw [numeral] at read
      cases read
    | some n =>
      rw [numeral] at read
      dsimp only at read
      split at read
      · rename_i range
        have bounds := Word.inRange_bits.1 range
        cases read
        exact ⟨n, (Word.readUnsigned?_eq_some_iff.1 numeral).1, by omega, rfl⟩
      · cases read
  · rintro ⟨n, digits, fits, rfl⟩
    rw [Word.readUnsigned?_eq_some_iff.2 ⟨digits, show n < 2 ^ 32 by omega⟩]
    dsimp only
    rw [if_pos (Word.inRange_bits.2 (by omega))]

theorem integerValue?_eq_some_iff : integerValue? body = some value ↔
    ∃ number, Numeral.Signed body number ∧ -32768 ≤ number ∧ number ≤ 32767 ∧
      value = number % 65536 := by
  have encoded : ∀ number : Int, -32768 ≤ number → number ≤ 32767 →
      (if number < 0 then Word.convert number Word.bits else number) = number % 65536 := by
    intro number lower upper
    split
    · exact Word.convert_negative lower (by omega)
    · omega
  unfold integerValue?
  constructor
  · intro read
    cases numeral : Numeral.readInteger? body with
    | none =>
      rw [numeral] at read
      cases read
    | some number =>
      rw [numeral] at read
      dsimp only at read
      split at read
      · rename_i range
        have lower := (Word.inRange_bits.1 range.1).1
        cases read
        exact ⟨number, (Numeral.readInteger?_eq_some_iff.1 numeral).1, lower, range.2,
          encoded number lower range.2⟩
      · cases read
  · rintro ⟨number, digits, lower, upper, rfl⟩
    rw [Numeral.readInteger?_eq_some_iff.2 ⟨digits, by omega, by omega⟩]
    dsimp only
    rw [if_pos ⟨Word.inRange_bits.2 (by omega), upper⟩, encoded number lower upper]

theorem charValue?_eq_some_iff : charValue? body = some value ↔
    (∃ high, body = [byte '\'', high, byte '\''] ∧ value = high.toNat * 256) ∨
      ∃ high low, body = [byte '\'', high, low, byte '\''] ∧
        value = high.toNat * 256 + low.toNat := by
  constructor
  · intro read
    unfold charValue? at read
    split at read
    · rename_i left high right
      split at read
      · rename_i quotes
        obtain ⟨rfl, rfl⟩ := quotes
        cases read
        exact Or.inl ⟨high, rfl, rfl⟩
      · cases read
    · rename_i left high low right
      split at read
      · rename_i quotes
        obtain ⟨rfl, rfl⟩ := quotes
        cases read
        exact Or.inr ⟨high, low, rfl, rfl⟩
      · cases read
    · cases read
  · rintro (⟨high, rfl, rfl⟩ | ⟨high, low, rfl, rfl⟩)
    · rfl
    · rfl

/-- The letter of a literal selects the reader of its body. -/
theorem literal?_eq_some_iff :
    literal? letter body = some (kind, value) ↔ Literal letter body kind value := by
  constructor
  · intro read
    unfold literal? at read
    split at read
    · rename_i named
      obtain ⟨_, found, ⟨⟩⟩ := Option.map_eq_some_iff.1 read
      obtain ⟨before, run, after, n, leading, trailing, rfl, digits, fits, rfl⟩ :=
        hexValue?_eq_some_iff.1 found
      exact .hex named leading digits trailing fits
    · split at read
      · rename_i named
        obtain ⟨_, found, ⟨⟩⟩ := Option.map_eq_some_iff.1 read
        obtain ⟨n, digits, fits, rfl⟩ := binaryValue?_eq_some_iff.1 found
        exact .binary named digits fits
      · split at read
        · rename_i named
          obtain ⟨_, found, ⟨⟩⟩ := Option.map_eq_some_iff.1 read
          obtain ⟨number, digits, lower, upper, rfl⟩ := integerValue?_eq_some_iff.1 found
          exact .integer named digits lower upper
        · split at read
          · rename_i named
            obtain ⟨_, found, ⟨⟩⟩ := Option.map_eq_some_iff.1 read
            rcases charValue?_eq_some_iff.1 found with ⟨high, rfl, rfl⟩ | ⟨high, low, rfl, rfl⟩
            · exact .single named
            · exact .double named
          · cases read
  · intro form
    cases form with
    | hex named leading digits trailing fits =>
      rw [literal?, if_pos named, hexValue?_eq_some_iff.2
        ⟨_, _, _, _, leading, trailing, rfl, digits, fits, rfl⟩]
      rfl
    | binary named digits fits =>
      have found := binaryValue?_eq_some_iff.2 ⟨_, digits, fits, rfl⟩
      rcases named with rfl | rfl
      all_goals
        rw [literal?, if_neg (by decide), if_pos (by decide), found]
        rfl
    | integer named digits lower upper =>
      have found := integerValue?_eq_some_iff.2 ⟨_, digits, lower, upper, rfl⟩
      rcases named with rfl | rfl
      all_goals
        rw [literal?, if_neg (by decide), if_neg (by decide), if_pos (by decide), found]
        rfl
    | single named => rcases named with rfl | rfl <;> rfl
    | double named => rcases named with rfl | rfl <;> rfl

theorem Literal.isLiteralLetter (form : Literal letter body kind value) :
    Token.isLiteralLetter letter = true := by
  cases form with
  | hex named => rcases named with rfl | rfl <;> decide
  | binary named => rcases named with rfl | rfl <;> decide
  | integer named => rcases named with rfl | rfl <;> decide
  | single named => rcases named with rfl | rfl <;> decide
  | double named => rcases named with rfl | rfl <;> decide

/-! ### Texts -/

/-- The operand that a text stands for, with the kind that it looks like. -/
def ofText (text : Bytes) : Operand := ofToken ⟨text, Token.kindOf text⟩

/-- What is written like a number or a literal is read as one. -/
theorem Spells.ofText_eq (spells : Spells text kind value) :
    ofText text = ⟨text, kind, value⟩ := by
  cases spells with
  | @number _ n digits fits =>
    have read := (Numeral.readInteger?_of_number digits.kindOf).2
      ⟨n, digits, by omega, rfl⟩
    have small : (n : Int) ≤ largestWord := by
      unfold largestWord
      omega
    rw [ofText, ofToken, digits.kindOf, numberOf, read]
    dsimp only
    rw [if_pos small]
  | literal form =>
    rw [ofText, ofToken, Token.kindOf_of_isLiteralLetter form.isLiteralLetter]
    dsimp only
    rw [literalOf, literal?_eq_some_iff.2 form]
    rfl

theorem Spells.isNumeric (spells : Spells text kind value) : kind.isNumeric = true := by
  cases spells with
  | number => rfl
  | literal form => cases form <;> rfl

theorem Spells.bounds (spells : Spells text kind value) : 0 ≤ value ∧ value ≤ largestWord := by
  unfold largestWord
  cases spells with
  | number _ fits => omega
  | literal form =>
    cases form with
    | hex _ _ _ _ fits => omega
    | binary _ _ fits => omega
    | integer => omega
    | @single high =>
      have small := high.toNat_lt
      omega
    | @double high low =>
      have small := high.toNat_lt
      have smallLow := low.toNat_lt
      omega

/-- What looks like a number or a literal and is not written like one is malformed. -/
theorem spells_or_malformed (shape : Token.kindOf text = .number ∨ Token.kindOf text = .literal) :
    (∃ kind value, Spells text kind value) ∨ ofText text = ⟨text, .malformed, 0⟩ := by
  rcases shape with number | literal
  · -- Digits are a numeral of some value, which may fit no integer or no word.
    cases read : Numeral.readInteger? text with
    | none =>
      refine Or.inr ?_
      rw [ofText, ofToken, number]
      dsimp only
      rw [numberOf, read]
    | some value =>
      obtain ⟨n, digits, _, rfl⟩ := (Numeral.readInteger?_of_number number).1 read
      by_cases fits : n ≤ 65535
      · exact Or.inl ⟨.number, n, .number digits fits⟩
      · have large : ¬(n : Int) ≤ largestWord := by
          unfold largestWord
          omega
        refine Or.inr ?_
        rw [ofText, ofToken, number]
        dsimp only
        rw [numberOf, read]
        dsimp only
        rw [if_neg large]
  · obtain ⟨letter, body, rfl⟩ := Token.split_of_literal literal
    cases read : literal? letter body with
    | none =>
      refine Or.inr ?_
      rw [ofText, ofToken, literal]
      dsimp only
      rw [literalOf, read]
      rfl
    | some found => exact Or.inl ⟨found.1, found.2, .literal (literal?_eq_some_iff.1 read)⟩

theorem kindOf_of_isNumeric (numeric : (ofText text).kind.isNumeric = true) :
    Token.kindOf text = .number ∨ Token.kindOf text = .literal := by
  unfold ofText ofToken at numeric
  cases shape : Token.kindOf text with
  | number => exact Or.inl rfl
  | literal => exact Or.inr rfl
  | label | comment | expression | empty | error =>
    rw [shape] at numeric
    cases numeric

/-- The operands with a value are exactly the numbers and literals that are written as they should
be, their values are words, and any other text that looks like one of them is malformed. -/
theorem ofText_exact (text : Bytes) :
    (∀ kind value, ((ofText text).kind = kind ∧ kind.isNumeric = true ∧
        (ofText text).value = value) ↔ Spells text kind value) ∧
      ((ofText text).kind.isNumeric = true →
        0 ≤ (ofText text).value ∧ (ofText text).value ≤ largestWord) ∧
      (Token.kindOf text = .number ∨ Token.kindOf text = .literal →
        (ofText text).kind.isNumeric = false →
          (ofText text).kind = .malformed ∧ (ofText text).value = 0) := by
  have spelled : (ofText text).kind.isNumeric = true →
      Spells text (ofText text).kind (ofText text).value := by
    intro numeric
    rcases spells_or_malformed (kindOf_of_isNumeric numeric) with
      ⟨kind, value, spells⟩ | malformed
    · rw [spells.ofText_eq]
      exact spells
    · rw [malformed] at numeric
      cases numeric
  refine ⟨fun kind value => ⟨?_, fun spells => ?_⟩, fun numeric => (spelled numeric).bounds,
    fun shape plain => ?_⟩
  · rintro ⟨rfl, numeric, rfl⟩
    exact spelled numeric
  · rw [spells.ofText_eq]
    exact ⟨rfl, spells.isNumeric, rfl⟩
  · rcases spells_or_malformed shape with ⟨kind, value, spells⟩ | malformed
    · rw [spells.ofText_eq, spells.isNumeric] at plain
      cases plain
    · rw [malformed]
      exact ⟨rfl, rfl⟩

/-- A literal in white space, a negative literal, and one that is too large. -/
theorem ofText_exact_literals :
    Spells (ascii "x=" ++ Utf8.encode ['\u2003'] ++ ascii "00fF\n") .hex 255 ∧
      Spells (ascii "I=-32768") .integer 32768 ∧
      (0 ≤ (ofText (ascii "I=-32768")).value ∧
        (ofText (ascii "I=-32768")).value ≤ largestWord) ∧
      (ofText (ascii "X=FFFFFFFF")).kind = .malformed ∧
      (ofText (ascii "X=FFFFFFFF")).value = 0 :=
  ⟨((ofText_exact _).1 .hex 255).1 (by decide +kernel),
    ((ofText_exact _).1 .integer 32768).1 (by decide +kernel),
    (ofText_exact (ascii "I=-32768")).2.1 (by decide +kernel),
    (ofText_exact (ascii "X=FFFFFFFF")).2.2 (by decide +kernel) (by decide +kernel)⟩

end Operand

end WordAssembler

import WordAssembler.Proofs.Arithmetic
import WordAssembler.Proofs.Literals

/-!
Conversions of words. The conversion between numbers and their two's complement encodings undoes
itself on the numbers of its range, and gives 0 for all others. A numeral of a word, with the zeros
or blanks that fill its field, is read back as the word: in hexadecimal its low sixteen bits, in
binary as many bits as the field has digits.
-/

set_option autoImplicit false

namespace WordAssembler

/-! ### The length of a numeral -/

namespace Numeral

section Length

variable {base : Nat} (several : 2 ≤ base)
include several

/-- A number below a power of the base adds no more digits than the power has factors. -/
theorem length_digitsBefore_le {places : Nat} (filled : 1 ≤ places) (fuel value : Nat)
    (after : Bytes) (small : value < base ^ places) :
    (digitsBefore base fuel value after).length ≤ places + after.length := by
  induction fuel generalizing places value after with
  | zero => exact Nat.le_add_left _ _
  | succ fuel ih =>
    rw [digitsBefore]
    split
    · rw [List.length_cons]
      omega
    · rename_i large
      obtain ⟨fewer, rfl⟩ := Nat.exists_eq_add_of_le' filled
      have lower : value / base < base ^ fewer := by
        rw [Nat.div_lt_iff_lt_mul (by omega), ← Nat.pow_succ]
        exact small
      -- A number that is not below the base has a second digit.
      have more : 1 ≤ fewer := by
        rcases Nat.eq_zero_or_pos fewer with rfl | positive
        · rw [Nat.zero_add, Nat.pow_one] at small
          exact absurd small large
        · exact positive
      have length := ih more (value / base) (digit (value % base) :: after) lower
      rw [List.length_cons] at length
      omega

theorem length_digits_le {places value : Nat} (filled : 1 ≤ places)
    (small : value < base ^ places) : (digits base value).length ≤ places :=
  length_digitsBefore_le several filled (value + 1) value [] small

end Length

/-- The digits of a number denote it, also after zeros. -/
theorem denotes_filled {base : Nat} (several : 2 ≤ base) (most : base ≤ 16) (zeros value : Nat) :
    Denotes base (List.replicate zeros (byte '0') ++ digits base value) value :=
  read?_eq_some_iff.1 (read?_replicate_digits most several zeros value)

end Numeral

namespace Word

open Numeral (Denotes powerOfTwo)

/-! ### Two's complement -/

section Complement

variable {number digits : Int}

/-- The width has twice as many encodings as numbers that encode themselves. -/
theorem powerOfTwo_isWidth (width : isWidth digits = true) :
    (powerOfTwo digits.toNat : Int) = 2 * powerOfTwo (digits.toNat - 1) := by
  have bounds : 2 ≤ digits ∧ digits ≤ 32 := by simpa [isWidth] using width
  have successor : digits.toNat = (digits.toNat - 1).succ := by omega
  have doubled : powerOfTwo digits.toNat = powerOfTwo (digits.toNat - 1) * 2 :=
    (congrArg powerOfTwo successor).trans (Nat.pow_succ 2 _)
  rw [doubled, Nat.cast_mul, mul_comm]
  rfl

theorem inRange_iff : inRange number digits = true ↔ isWidth digits = true ∧
    -(powerOfTwo (digits.toNat - 1) : Int) ≤ number ∧
      number < 2 * powerOfTwo (digits.toNat - 1) := by
  rw [inRange, Bool.and_eq_true, Bool.and_eq_true, decide_eq_true_eq, decide_eq_true_eq, and_assoc]
  refine and_congr_right fun width => ?_
  rw [powerOfTwo_isWidth width]

/-- Outside its range the conversion gives 0. -/
theorem convert_outside (outside : inRange number digits = false) : convert number digits = 0 := by
  by_cases width : isWidth digits = true
  · have apart : ¬(-(powerOfTwo (digits.toNat - 1) : Int) ≤ number ∧
        number < 2 * powerOfTwo (digits.toNat - 1)) := by
      intro bounds
      rw [inRange_iff.2 ⟨width, bounds⟩] at outside
      cases outside
    rw [convert, if_pos width, if_neg (by omega), if_neg (by omega), if_neg (by omega)]
  · rw [convert, if_neg width]

/-- A number and its conversion are the two ends of one encoding: the conversion is again in range,
and it is converted back. -/
theorem convert_convert (inside : inRange number digits = true) :
    inRange (convert number digits) digits = true ∧
      convert (convert number digits) digits = number := by
  obtain ⟨width, lower, upper⟩ := inRange_iff.1 inside
  simp only [inRange_iff, convert, width, if_true, true_and]
  generalize (powerOfTwo (digits.toNat - 1) : Int) = half at lower upper ⊢
  by_cases small : 0 ≤ number ∧ number < half
  · rw [if_pos small, if_pos small]
    omega
  · rw [if_neg small]
    by_cases negative : -half ≤ number ∧ number < 0
    · -- The encoding is in the upper half of the range.
      rw [if_pos negative, if_neg (by omega), if_neg (by omega), if_pos (by omega)]
      omega
    · -- The number is an encoding, of a negative number.
      rw [if_neg negative, if_pos (by omega), if_neg (by omega), if_pos (by omega)]
      omega

end Complement

/-- Sixteen bits are converted to their signed reading. -/
theorem convert_sixteen {value : Int} (lower : 0 ≤ value) (upper : value < 65536) :
    convert value 16 = BitVec.toInt (ofInt value) := by
  have half : ((powerOfTwo ((16 : Int).toNat - 1) : Nat) : Int) = 32768 := rfl
  have width : isWidth 16 = true := by decide
  rw [ofInt, BitVec.toInt_ofInt, convert, if_pos width, half, Int.bmod_def]
  have same : value % (2 ^ 16 : Nat) = value := Int.emod_eq_of_lt lower upper
  rw [same]
  by_cases small : value < 32768
  · rw [if_pos ⟨lower, small⟩, if_pos (by omega)]
  · rw [if_neg (by omega), if_neg (by omega), if_pos (by omega), if_neg (by omega)]
    rfl

/-! ### Numerals in a field -/

/-- A field that is not left-justified has zeros in front. -/
theorem inField_leftpad {width : Int} (lower : 0 ≤ width) (upper : width ≤ widestField)
    (numeral : Bytes) : inField width [] numeral = numeral.leftpad width.toNat (byte '0') := by
  rw [inField, if_neg (by omega), if_neg (by omega)]
  rfl

/-- A field holds its numeral after zeros or before blanks. -/
theorem inField_eq {width : Int} (fits : width.natAbs ≤ widestField) (numeral : Bytes) :
    ∃ zeros blanks, inField width [] numeral =
      List.replicate zeros (byte '0') ++ numeral ++ List.replicate blanks (byte ' ') := by
  by_cases left : width < 0
  · rw [inField, if_neg (by omega), if_pos left]
    exact ⟨0, _, rfl⟩
  · rw [inField_leftpad (by omega) (by omega)]
    exact ⟨_, 0, (List.append_nil _).symm⟩

theorem isBlank_replicate (count : Nat) : Bytes.IsBlank (List.replicate count (byte ' ')) := by
  refine ⟨List.replicate count ' ', fun c member => ?_, ?_⟩
  · rw [List.eq_of_mem_replicate member]
    rfl
  · have space : Utf8.encodeChar ' ' = [byte ' '] := by decide
    rw [Utf8.encode, List.flatMap_replicate, space, List.flatten_replicate_singleton]

/-- The low sixteen bits of a value are read from its numeral, and converted. -/
theorem parseHex_hex (value : Int) {width : Int} (fits : width.natAbs ≤ widestField)
    (digits : Int) : parseHex (hex value width) digits = .ok (convert (value % 65536) digits) := by
  have lower : 0 ≤ value % 65536 := Int.emod_nonneg value (by decide)
  obtain ⟨zeros, blanks, field⟩ := inField_eq fits (Numeral.digits 16 (value % 65536).toNat)
  have numeral : Denotes 16 _ (value % 65536).toNat :=
    Numeral.denotes_filled (by decide) (by decide) zeros _
  have read := parseHex_of_denotes (isBlank_replicate 0) numeral (isBlank_replicate blanks)
    (by omega) digits
  rw [Int.toNat_of_nonneg lower] at read
  rw [hex, field]
  exact read

section Binary

variable (value : Int) {width : Nat}

theorem emod_power_bounds (width : Nat) :
    0 ≤ value % (2 : Int) ^ width ∧ (value % (2 : Int) ^ width).toNat < 2 ^ width := by
  have lower : 0 ≤ value % (2 : Int) ^ width := Int.emod_nonneg value (by positivity)
  refine ⟨lower, ?_⟩
  zify
  rw [Int.toNat_of_nonneg lower]
  exact Int.emod_lt_of_pos value (by positivity)

/-- The low bits of a value, in a field of as many digits. -/
theorem binaryDigits_eq (narrow : width < 64) : binaryDigits value width =
    (Numeral.digits 2 (value % 2 ^ width).toNat).leftpad width (byte '0') := by
  have low : lowBits value width = value % 2 ^ width := by
    rw [lowBits, if_pos narrow, powerOfTwo]
    exact congrArg (value % ·) (Nat.cast_pow 2 width)
  have lower := (emod_power_bounds value width).1
  have magnitude : (value % (2 : Int) ^ width).natAbs = (value % 2 ^ width).toNat := by omega
  have field : (width : Int) ≤ widestField := by
    unfold widestField
    omega
  rw [binaryDigits, low, if_neg (by omega), magnitude,
    inField_leftpad (Int.natCast_nonneg width) field, Int.toNat_natCast]

/-- As many bits as the field has digits are read from a binary numeral. -/
theorem parseBinary_binaryDigits (narrow : width ≤ 32) :
    parseBinary (binaryDigits value width) = .ok (value % 2 ^ width) := by
  obtain ⟨lower, upper⟩ := emod_power_bounds value width
  have numeral : Denotes 2 (binaryDigits value width) (value % 2 ^ width).toNat := by
    rw [binaryDigits_eq value (by omega)]
    exact Numeral.denotes_filled (by decide) (by decide) _ _
  have small : (value % (2 : Int) ^ width).toNat < 2 ^ 32 :=
    Nat.lt_of_lt_of_le upper (Nat.pow_le_pow_right (by decide) narrow)
  rw [parseBinary, readUnsigned?_eq_some_iff.2 ⟨numeral, small⟩]
  exact congrArg Except.ok (Int.toNat_of_nonneg lower)

/-- A binary numeral fills its field. -/
theorem length_binaryDigits (filled : 1 ≤ width) (narrow : width < 64) :
    (binaryDigits value width).length = width := by
  rw [binaryDigits_eq value narrow, List.length_leftpad]
  have upper := (emod_power_bounds value width).2
  exact Nat.max_eq_left (Numeral.length_digits_le (by decide) filled upper)

end Binary

/-! ### Round trips -/

/-- The conversion undoes itself in its range and gives 0 outside it. A hexadecimal numeral is read
back as the low sixteen bits of its value, without a sign in 32 bits and with one in sixteen. A
binary numeral is read back as the bits that its field has room for, and fills the field. -/
theorem conversions_undone :
    (∀ number digits : Int, inRange number digits = true →
      inRange (convert number digits) digits = true ∧
        convert (convert number digits) digits = number) ∧
    (∀ number digits : Int, inRange number digits = false → convert number digits = 0) ∧
    (∀ value width : Int, width.natAbs ≤ widestField →
      parseHex (hex value width) 32 = .ok (value % 65536) ∧
        parseHex (hex value width) 16 = .ok (BitVec.toInt (ofInt value))) ∧
    (∀ value width : Int, 0 ≤ width → width ≤ 32 → ∃ numeral, binary value width = .ok numeral ∧
      parseBinary numeral = .ok (value % 2 ^ width.toNat) ∧
        (1 ≤ width → numeral.length = width.toNat)) := by
  refine ⟨fun _ _ => convert_convert, fun _ _ => convert_outside, ?_, ?_⟩
  · intro value width fits
    have lower : 0 ≤ value % 65536 := Int.emod_nonneg value (by decide)
    have upper : value % 65536 < 65536 := Int.emod_lt_of_pos value (by decide)
    have stored : ofInt (value % 65536) = ofInt value := ofInt_congr (Int.mod_modEq value 65536)
    refine ⟨?_, ?_⟩
    · rw [parseHex_hex value fits, convert_unsigned lower (by omega), if_pos (by omega)]
    · rw [parseHex_hex value fits, convert_sixteen lower upper, stored]
  · intro value width lower upper
    refine ⟨binaryDigits value width.toNat, ?_, parseBinary_binaryDigits value (by omega), ?_⟩
    · rw [binary, if_neg (by omega)]
    · intro filled
      exact length_binaryDigits value (by omega) (by omega)

/-- The conversions of the least numbers of their widths, of a number with bits above a word, and of
a negative value in fields of other widths. -/
theorem conversions_undone_extremes :
    convert (convert (-2147483648) 32) 32 = -2147483648 ∧ convert 65536 16 = 0 ∧
    parseHex (hex 98303 1000) 32 = .ok 32767 ∧ parseHex (hex (-1) 0) 16 = .ok (-1) ∧
    ∃ numeral, binary (-3) 5 = .ok numeral ∧ parseBinary numeral = .ok 29 ∧ numeral.length = 5 := by
  obtain ⟨inside, outside, hexadecimal, binary⟩ := conversions_undone
  refine ⟨(inside _ _ (by decide)).2, outside _ _ (by decide), ?_, ?_, ?_⟩
  · exact (hexadecimal 98303 1000 (by decide)).1
  · exact (hexadecimal (-1) 0 (by decide)).2
  · obtain ⟨numeral, written, read, length⟩ := binary (-3) 5 (by decide) (by decide)
    exact ⟨numeral, written, read, length (by decide)⟩

end Word

end WordAssembler

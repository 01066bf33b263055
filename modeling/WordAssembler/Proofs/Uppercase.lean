import Mathlib.Data.Nat.Bitwise
import WordAssembler.Text.Uppercase

/-!
Upper case is idempotent. What is encoded in UTF-8 decodes to itself, and the upper case of a
character is no character that has an upper case of its own: that is checked once on the table, with
the codes that have one as the bits of a number.
-/

set_option autoImplicit false

namespace WordAssembler

namespace Utf8

/-- A character is read from its bytes if its code is read from them. -/
theorem leading?_of_bits {c : Char} {lead : UInt8} {tail rest : Bytes}
    (bytes : encodeChar c = lead :: tail) (count : following lead = tail.length)
    (bits : tail.foldl (fun bits b => bits * 64 + b.toNat % 64) (leadBits lead) = c.toNat) :
    leading? lead (tail ++ rest) = some c := by
  unfold leading?
  dsimp only
  rw [count, List.take_left, bits, Char.ofNat_toNat]
  exact if_pos bytes

/-- The bytes of a character by the size of its code. -/
theorem encodeChar_eq (c : Char) : encodeChar c =
    if c.toNat ≤ 0x7F then [UInt8.ofNat c.toNat]
    else if c.toNat ≤ 0x7FF then
      [UInt8.ofNat (c.toNat / 64 % 32 + 0xC0), UInt8.ofNat (c.toNat % 64 + 0x80)]
    else if c.toNat ≤ 0xFFFF then
      [UInt8.ofNat (c.toNat / 4096 % 16 + 0xE0), UInt8.ofNat (c.toNat / 64 % 64 + 0x80),
        UInt8.ofNat (c.toNat % 64 + 0x80)]
    else
      [UInt8.ofNat (c.toNat / 262144 % 8 + 0xF0), UInt8.ofNat (c.toNat / 4096 % 64 + 0x80),
        UInt8.ofNat (c.toNat / 64 % 64 + 0x80), UInt8.ofNat (c.toNat % 64 + 0x80)] := rfl

theorem following_eq (lead : UInt8) : following lead =
    if lead.toNat < 0x80 then 0 else if lead.toNat < 0xE0 then 1
    else if lead.toNat < 0xF0 then 2 else 3 := rfl

theorem leadBits_eq (lead : UInt8) : leadBits lead =
    if lead.toNat < 0x80 then lead.toNat else if lead.toNat < 0xE0 then lead.toNat % 32
    else if lead.toNat < 0xF0 then lead.toNat % 16 else lead.toNat % 8 := rfl

/-- The bytes of a character start with one that tells how many follow, and read back. -/
theorem leading?_encodeChar (c : Char) (rest : Bytes) : ∃ lead tail,
    encodeChar c = lead :: tail ∧ following lead = tail.length ∧
      leading? lead (tail ++ rest) = some c := by
  have bound : c.toNat < 0x110000 := by
    have valid := c.valid
    unfold UInt32.isValidChar Nat.isValidChar at valid
    change c.val.toNat < 0x110000
    omega
  have whole : ∀ n < 256, (UInt8.ofNat n).toNat = n := by
    intro n small
    rw [UInt8.toNat_ofNat', Nat.mod_eq_of_lt small]
  have expand := encodeChar_eq c
  have split : ∀ {lead : UInt8} {tail : Bytes}, encodeChar c = lead :: tail →
      following lead = tail.length →
      tail.foldl (fun bits b => bits * 64 + b.toNat % 64) (leadBits lead) = c.toNat →
      ∃ lead tail, encodeChar c = lead :: tail ∧ following lead = tail.length ∧
        leading? lead (tail ++ rest) = some c :=
    fun bytes count bits => ⟨_, _, bytes, count, leading?_of_bits bytes count bits⟩
  split at expand
  · refine split expand ?_ ?_
    · rw [following_eq, whole _ (by omega), if_pos (by omega)]
      rfl
    · rw [leadBits_eq, whole _ (by omega), if_pos (by omega)]
      rfl
  · split at expand
    · refine split expand ?_ ?_
      · rw [following_eq, whole _ (by omega), if_neg (by omega), if_pos (by omega)]
        rfl
      · rw [leadBits_eq, whole _ (by omega), if_neg (by omega), if_pos (by omega)]
        simp only [List.foldl_cons, List.foldl_nil]
        rw [whole _ (by omega)]
        omega
    · split at expand
      · refine split expand ?_ ?_
        · rw [following_eq, whole _ (by omega), if_neg (by omega), if_neg (by omega),
            if_pos (by omega)]
          rfl
        · rw [leadBits_eq, whole _ (by omega), if_neg (by omega), if_neg (by omega),
            if_pos (by omega)]
          simp only [List.foldl_cons, List.foldl_nil]
          rw [whole _ (by omega), whole _ (by omega)]
          omega
      · refine split expand ?_ ?_
        · rw [following_eq, whole _ (by omega), if_neg (by omega), if_neg (by omega),
            if_neg (by omega)]
          rfl
        · rw [leadBits_eq, whole _ (by omega), if_neg (by omega), if_neg (by omega),
            if_neg (by omega)]
          simp only [List.foldl_cons, List.foldl_nil]
          rw [whole _ (by omega), whole _ (by omega), whole _ (by omega)]
          omega

theorem decodeFrom_skip (read : List Glyph) (skipped rest : Bytes) :
    decodeFrom skipped.length read (skipped ++ rest) = decodeFrom 0 read rest := by
  induction skipped with
  | nil => rfl
  | cons b skipped ih => exact ih

theorem decodeFrom_encode (text : List Char) (read : List Glyph) :
    decodeFrom 0 read (encode text) = read.reverse ++ text.map .char := by
  induction text generalizing read with
  | nil => simp [encode, decodeFrom]
  | cons c text ih =>
    obtain ⟨lead, tail, bytes, count, found⟩ := leading?_encodeChar c (encode text)
    have split : encode (c :: text) = lead :: (tail ++ encode text) := by
      rw [encode, List.flatMap_cons, bytes]
      rfl
    rw [split, decodeFrom, found]
    dsimp only
    rw [count, decodeFrom_skip, ih]
    simp

/-- Encoded characters are shown as themselves. -/
theorem shown_encode (text : List Char) : shown (encode text) = text := by
  rw [shown, decode, decodeFrom_encode]
  simp [Function.comp_def, Glyph.shown]

/-- What was decoded before stands before the rest. -/
theorem decodeFrom_read (skip : Nat) (read : List Glyph) (text : Bytes) :
    ∃ more, decodeFrom skip read text = read.reverse ++ more := by
  induction text generalizing skip read with
  | nil => exact ⟨[], (List.append_nil _).symm⟩
  | cons b rest ih =>
    cases skip with
    | succ skip => exact ih skip read
    | zero =>
      have longer : ∀ (skip : Nat) (glyph : Glyph),
          ∃ more, decodeFrom skip (glyph :: read) rest = read.reverse ++ more := by
        intro skip glyph
        obtain ⟨more, decoded⟩ := ih skip (glyph :: read)
        exact ⟨glyph :: more, by rw [decoded, List.reverse_cons, List.append_assoc]; rfl⟩
      rw [decodeFrom]
      split
      · exact longer _ _
      · exact longer _ _

end Utf8

namespace Uppercase

/-- The letters of ASCII that have an upper case. -/
def lowerLetters : CaseRange := ⟨0x61, 0x7A, 1, -32⟩

def CaseRange.codes (range : CaseRange) : List Nat :=
  List.range' range.first ((range.last - range.first) / range.stride + 1) range.stride

/-- The number that has a bit for each of some codes, and for those of another. -/
def withBits (bits : Nat) (codes : List Nat) : Nat :=
  codes.foldl (fun bits code => bits ||| 1 <<< code) bits

theorem testBit_withBits (bits : Nat) (codes : List Nat) (code : Nat)
    (member : bits.testBit code = true ∨ code ∈ codes) :
    (withBits bits codes).testBit code = true := by
  induction codes generalizing bits with
  | nil => exact member.resolve_right List.not_mem_nil
  | cons head codes ih =>
    refine ih _ ?_
    rcases member with set | member
    · exact Or.inl (by simp [set])
    · rcases List.mem_cons.1 member with rfl | later
      · exact Or.inl (by simp)
      · exact Or.inr later

/-- The codes of all characters that have an upper case of their own, as bits. -/
def lowerBits : Nat :=
  (lowerLetters :: ranges).foldl (fun bits range => withBits bits range.codes) 0

/-- No upper case has an upper case of its own. -/
theorem image_not_lower : (ranges.all fun range => range.codes.all fun code =>
    !lowerBits.testBit ((code : Int) + range.shift).toNat) = true := by
  decide +kernel

theorem CaseRange.mem_codes {range : CaseRange} {code : Nat} (covers : range.covers code = true) :
    code ∈ range.codes := by
  simp only [CaseRange.covers, Bool.and_eq_true, decide_eq_true_eq, beq_iff_eq] at covers
  obtain ⟨⟨lower, upper⟩, exact_⟩ := covers
  refine List.mem_range'.2 ⟨(code - range.first) / range.stride, ?_, ?_⟩
  · exact Nat.lt_succ_of_le (Nat.div_le_div_right (by omega))
  · rw [Nat.mul_div_cancel' (Nat.dvd_of_mod_eq_zero exact_)]
    omega

theorem testBit_foldl (bits : Nat) (table : List CaseRange) (code : Nat)
    (member : bits.testBit code = true ∨ ∃ range ∈ table, code ∈ range.codes) :
    (table.foldl (fun bits range => withBits bits range.codes) bits).testBit code = true := by
  induction table generalizing bits with
  | nil => simpa using member
  | cons head table ih =>
    refine ih _ ?_
    rcases member with set | ⟨range, member, covered⟩
    · exact Or.inl (testBit_withBits bits head.codes code (Or.inl set))
    · rcases List.mem_cons.1 member with rfl | later
      · exact Or.inl (testBit_withBits bits range.codes code (Or.inr covered))
      · exact Or.inr ⟨range, later, covered⟩

theorem testBit_lowerBits {range : CaseRange} {code : Nat}
    (member : range ∈ lowerLetters :: ranges) (covers : range.covers code = true) :
    lowerBits.testBit code = true :=
  testBit_foldl 0 _ code (Or.inr ⟨range, member, range.mem_codes covers⟩)

/-- A character without an upper case of its own is in upper case. -/
theorem char_of_not_lower {c : Char} (other : lowerBits.testBit c.toNat = false) : char c = c := by
  have uncovered : ∀ range ∈ lowerLetters :: ranges, range.covers c.toNat ≠ true := by
    intro range member covers
    rw [testBit_lowerBits member covers] at other
    cases other
  unfold char
  split
  · have letter := uncovered lowerLetters List.mem_cons_self
    unfold Char.toUpper
    rw [dif_neg]
    rintro ⟨lower, upper⟩
    apply letter
    have lower : 0x61 ≤ c.toNat := UInt32.le_iff_toNat_le.1 lower
    have upper : c.toNat ≤ 0x7A := UInt32.le_iff_toNat_le.1 upper
    simp [CaseRange.covers, lowerLetters, lower, upper, Nat.mod_one]
  · split
    · rename_i range found
      exact absurd (List.find?_some found)
        (uncovered range (List.mem_cons_of_mem _ (List.mem_of_find?_eq_some found)))
    · rfl

/-- A code stands for a character with that code, or for no character and then for NUL. -/
theorem toNat_ofNat (code : Nat) : (Char.ofNat code).toNat = code ∨ Char.ofNat code = '\x00' := by
  by_cases valid : code.isValidChar
  · refine Or.inl ?_
    rw [Char.ofNat, dif_pos valid]
    rfl
  · refine Or.inr ?_
    rw [Char.ofNat, dif_neg valid]
    rfl

theorem char_char (c : Char) : char (char c) = char c := by
  by_cases ascii : c.toNat < 128
  · have checked : ∀ code < 128, lowerBits.testBit (Char.ofNat code).toUpper.toNat = false := by
      decide +kernel
    apply char_of_not_lower
    rw [char, if_pos ascii]
    simpa using checked c.toNat ascii
  · cases found : ranges.find? (·.covers c.toNat) with
    | none =>
      have same : char c = c := by
        rw [char, if_neg ascii, found]
      rw [same, same]
    | some range =>
      have covers := List.find?_some (p := fun range : CaseRange => range.covers c.toNat) found
      have image := List.all_eq_true.1 image_not_lower range (List.mem_of_find?_eq_some found)
      have apart := List.all_eq_true.1 image c.toNat (range.mem_codes covers)
      apply char_of_not_lower
      rw [char, if_neg ascii, found]
      dsimp only
      rcases toNat_ofNat ((c.toNat : Int) + range.shift).toNat with same | zero
      · rw [same]
        simpa using apart
      · rw [zero]
        decide +kernel

end Uppercase

/-- A colon stays in front. -/
theorem head?_upper_colon (rest : Bytes) : (upper (byte ':' :: rest)).head? = some (byte ':') := by
  have colon : Utf8.leading? (byte ':') rest = some ':' := by
    simp only [Utf8.leading?, show Utf8.following (byte ':') = 0 from rfl, List.take_zero]
    rfl
  obtain ⟨more, decoded⟩ := Utf8.decodeFrom_read (Utf8.following (byte ':')) [.char ':'] rest
  rw [upper, Utf8.shown, Utf8.decode, Utf8.decodeFrom, colon]
  dsimp only
  rw [decoded]
  rfl

/-- The upper case of an upper case is the same. -/
theorem upper_upper (text : Bytes) : upper (upper text) = upper text := by
  have chars : Uppercase.char ∘ Uppercase.char = Uppercase.char := funext Uppercase.char_char
  rw [upper, upper, Utf8.shown_encode, List.map_map, chars]

end WordAssembler

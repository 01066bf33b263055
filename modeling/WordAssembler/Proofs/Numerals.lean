import Mathlib.Data.Nat.Digits.Defs
import WordAssembler.Proofs.Spelling

/-!
What numerals denote. A numeral of a base is a nonempty run of digits below it, and its value is the
sum of the digits by their places. The readers accept exactly these runs, of any length, with the
value they denote; where they read an integer, it may have a sign and must fit 64 bits.
-/

set_option autoImplicit false

namespace WordAssembler

namespace Numeral

/-! ### Runs of digits -/

/-- The run is a numeral of the base: its digits, the most significant first, make the value. -/
def Denotes (base : Nat) (run : Bytes) (value : Nat) : Prop :=
  ∃ places : List Nat, places ≠ [] ∧ run.map digitValue? = places.map some ∧
    (∀ place ∈ places, place < base) ∧ Nat.ofDigits base places.reverse = value

section Base

variable {base : Nat}

theorem readDigit_eq_some_iff {before next : Nat} {b : UInt8} :
    readDigit base (some before) b = some next ↔
      ∃ place, digitValue? b = some place ∧ place < base ∧ before * base + place = next := by
  unfold readDigit
  cases digit : digitValue? b with
  | none => simp
  | some place =>
    by_cases small : place < base
    · simp [small]
    · simp [small]

theorem foldl_readDigit_none (run : Bytes) : run.foldl (readDigit base) none = none := by
  induction run with
  | nil => rfl
  | cons b rest ih => exact ih

/-- Each digit multiplies what was read before by the base. -/
theorem foldl_readDigit_eq_some_iff {run : Bytes} {before value : Nat} :
    run.foldl (readDigit base) (some before) = some value ↔
      ∃ places : List Nat, run.map digitValue? = places.map some ∧
        (∀ place ∈ places, place < base) ∧
        before * base ^ places.length + Nat.ofDigits base places.reverse = value := by
  induction run generalizing before with
  | nil => simp
  | cons b rest ih =>
    have shifted : ∀ (place : Nat) (places : List Nat),
        before * base ^ (place :: places).length +
            Nat.ofDigits base (place :: places).reverse =
          (before * base + place) * base ^ places.length +
            Nat.ofDigits base places.reverse := by
      intro place places
      rw [List.reverse_cons, Nat.ofDigits_append, Nat.ofDigits_singleton, List.length_reverse,
        List.length_cons]
      ring
    rw [List.foldl_cons]
    constructor
    · intro read
      cases first : readDigit base (some before) b with
      | none =>
        rw [first, foldl_readDigit_none] at read
        cases read
      | some next =>
        obtain ⟨place, digit, small, rfl⟩ := readDigit_eq_some_iff.1 first
        rw [first] at read
        obtain ⟨places, digits, below, total⟩ := ih.1 read
        refine ⟨place :: places, ?_, ?_, (shifted place places).trans total⟩
        · rw [List.map_cons, List.map_cons, digit, digits]
        · exact List.forall_mem_cons.2 ⟨small, below⟩
    · rintro ⟨places, digits, below, total⟩
      cases places with
      | nil => cases digits
      | cons place places =>
        obtain ⟨digit, digits⟩ := List.cons.inj digits
        obtain ⟨small, below⟩ := List.forall_mem_cons.1 below
        rw [readDigit_eq_some_iff.2 ⟨place, digit, small, rfl⟩]
        exact ih.2 ⟨places, digits, below, (shifted place places).symm.trans total⟩

/-- Exactly the numerals of the base are read, with the value they denote. -/
theorem read?_eq_some_iff {run : Bytes} {value : Nat} :
    read? base run = some value ↔ Denotes base run value := by
  cases run with
  | nil =>
    constructor
    · nofun
    · rintro ⟨places, nonempty, digits, _⟩
      exact absurd (List.map_eq_nil_iff.1 digits.symm) nonempty
  | cons b rest =>
    change (b :: rest).foldl (readDigit base) (some 0) = some value ↔ _
    rw [foldl_readDigit_eq_some_iff]
    constructor
    · rintro ⟨places, digits, below, total⟩
      refine ⟨places, ?_, digits, below, by omega⟩
      rintro rfl
      cases digits
    · rintro ⟨places, _, digits, below, total⟩
      exact ⟨places, digits, below, by omega⟩

end Base

theorem Denotes.nonempty {base : Nat} {run : Bytes} {value : Nat}
    (denotes : Denotes base run value) : run ≠ [] := by
  rintro rfl
  obtain ⟨places, nonempty, digits, _⟩ := denotes
  exact nonempty (List.map_eq_nil_iff.1 digits.symm)

/-- Every byte of a numeral is a digit of the base. -/
theorem Denotes.digit {base : Nat} {run : Bytes} {value : Nat} (denotes : Denotes base run value)
    {b : UInt8} (member : b ∈ run) : ∃ place, digitValue? b = some place ∧ place < base := by
  obtain ⟨places, _, digits, below, _⟩ := denotes
  have known : digitValue? b ∈ places.map some := digits ▸ List.mem_map_of_mem member
  obtain ⟨place, inside, same⟩ := List.mem_map.1 known
  exact ⟨place, same.symm, below place inside⟩

/-- The digits of base ten. -/
theorem isDigit_of_digitValue? {b : UInt8} {place : Nat} (digit : digitValue? b = some place)
    (small : place < 10) : Bytes.isDigit b = true := by
  unfold digitValue? at digit
  split at digit
  · rename_i range
    simpa [Bytes.isDigit] using range
  · split at digit
    · rename_i range
      have lower : 65 ≤ b.toNat := UInt8.le_iff_toNat_le.1 range.1
      cases digit
      omega
    · split at digit
      · rename_i range
        have lower : 97 ≤ b.toNat := UInt8.le_iff_toNat_le.1 range.1
        cases digit
        omega
      · cases digit

/-- A decimal numeral looks like a number. -/
theorem Denotes.kindOf {run : Bytes} {value : Nat} (denotes : Denotes 10 run value) :
    Token.kindOf run = .number := by
  refine Token.kindOf_of_digits denotes.nonempty fun b member => ?_
  obtain ⟨place, digit, small⟩ := denotes.digit member
  exact isDigit_of_digitValue? digit small

/-! ### Integers -/

theorem fitsInteger_iff {value : Int} :
    fitsInteger value = true ↔ -2 ^ 63 ≤ value ∧ value < 2 ^ 63 := by
  have width : ((powerOfTwo 63 : Nat) : Int) = 2 ^ 63 := rfl
  rw [fitsInteger, width, Bool.and_eq_true, decide_eq_true_eq, decide_eq_true_eq]

/-- A decimal numeral with an optional sign, and the integer that it denotes. -/
inductive Signed : Bytes → Int → Prop
  | plain {run : Bytes} {value : Nat} (digits : Denotes 10 run value) : Signed run value
  | plus {run : Bytes} {value : Nat} (digits : Denotes 10 run value) :
      Signed (byte '+' :: run) value
  | minus {run : Bytes} {value : Nat} (digits : Denotes 10 run value) :
      Signed (byte '-' :: run) (-value)

theorem Denotes.ne_of_digitless {base : Nat} {b other : UInt8} {rest : Bytes} {value : Nat}
    (denotes : Denotes base (b :: rest) value) (mark : digitValue? other = none) : b ≠ other := by
  rintro rfl
  obtain ⟨place, digit, _⟩ := denotes.digit List.mem_cons_self
  rw [mark] at digit
  cases digit

/-- Exactly the signed numerals are read whose integer fits. -/
theorem readInteger?_eq_some_iff {text : Bytes} {value : Int} :
    readInteger? text = some value ↔ Signed text value ∧ -2 ^ 63 ≤ value ∧ value < 2 ^ 63 := by
  unfold readInteger?
  rw [Option.filter_eq_some_iff, fitsInteger_iff]
  refine and_congr_left fun _ => ?_
  cases text with
  | nil =>
    constructor
    · nofun
    · intro signed
      cases signed with
      | plain digits => exact absurd rfl digits.nonempty
  | cons b rest =>
    dsimp only
    split
    · rename_i minus
      subst minus
      constructor
      · intro read
        cases digits : read? 10 rest with
        | none =>
          rw [digits] at read
          cases read
        | some n =>
          rw [digits] at read
          cases read
          exact .minus (read?_eq_some_iff.1 digits)
      · intro signed
        cases signed with
        | plain digits => exact absurd rfl (digits.ne_of_digitless rfl)
        | minus digits =>
          rw [read?_eq_some_iff.2 digits]
          rfl
    · rename_i unsigned
      split
      · rename_i plus
        subst plus
        rw [Option.map_eq_some_iff]
        constructor
        · rintro ⟨n, read, rfl⟩
          exact .plus (read?_eq_some_iff.1 read)
        · intro signed
          cases signed with
          | plain digits => exact absurd rfl (digits.ne_of_digitless rfl)
          | plus digits => exact ⟨_, read?_eq_some_iff.2 digits, rfl⟩
      · rename_i plusless
        rw [Option.map_eq_some_iff]
        constructor
        · rintro ⟨n, read, rfl⟩
          exact .plain (read?_eq_some_iff.1 read)
        · intro signed
          cases signed with
          | plain digits => exact ⟨_, read?_eq_some_iff.2 digits, rfl⟩
          | plus digits => exact absurd rfl plusless
          | minus digits => exact absurd rfl unsigned

/-- What looks like a number is read without a sign. -/
theorem readInteger?_of_number {text : Bytes} {value : Int} (number : Token.kindOf text = .number) :
    readInteger? text = some value ↔
      ∃ n : Nat, Denotes 10 text n ∧ (n : Int) < 2 ^ 63 ∧ value = n := by
  constructor
  · intro read
    obtain ⟨n, numeral, rfl⟩ := readInteger?_of_digits (Token.digits_of_kindOf number) read
    exact ⟨n, read?_eq_some_iff.1 numeral, (readInteger?_eq_some_iff.1 read).2.2, rfl⟩
  · rintro ⟨n, denotes, small, rfl⟩
    exact readInteger?_eq_some_iff.2 ⟨.plain denotes, by omega, small⟩

end Numeral

end WordAssembler

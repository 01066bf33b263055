import Mathlib.Data.List.Basic
import WordAssembler.ObjectFile.Record
import WordAssembler.Text.Lines

/-!
What is written between separators is read back. Runs joined by a separator come apart again where
they were joined, and the digits of a number in any base up to sixteen are read as that number.
-/

set_option autoImplicit false

namespace WordAssembler

/-! ### Runs between separators -/

section Pieces

variable {α : Type} {separates : α → Bool}

theorem pieces_ne_nil (items : List α) : pieces separates items ≠ [] := by
  unfold pieces
  cases items with
  | nil => exact List.cons_ne_nil _ _
  | cons item rest =>
    rw [List.foldr_cons]
    repeat' split
    all_goals exact List.cons_ne_nil _ _

theorem pieces_cons_of_neg {item : α} (inside : separates item = false) (rest : List α)
    {run : List α} {later : List (List α)} (split : pieces separates rest = run :: later) :
    pieces separates (item :: rest) = (item :: run) :: later := by
  unfold pieces at split ⊢
  rw [List.foldr_cons, split, inside]
  rfl

/-- A separator parts the runs before it from those after it. -/
theorem pieces_append_cons {mark : α} (parts : separates mark = true) (first rest : List α) :
    pieces separates (first ++ mark :: rest) =
      pieces separates first ++ pieces separates rest := by
  induction first with
  | nil =>
    rw [List.nil_append]
    change (if separates mark then [] :: pieces separates rest else _) = _
    rw [if_pos parts]
    rfl
  | cons item first ih =>
    cases inside : separates item with
    | true =>
      change (if separates item then [] :: pieces separates (first ++ mark :: rest) else _) =
        (if separates item then [] :: pieces separates first else _) ++ _
      rw [if_pos inside, if_pos inside, ih]
      rfl
    | false =>
      obtain ⟨run, later, split⟩ := List.exists_cons_of_ne_nil (pieces_ne_nil first)
      rw [split] at ih
      rw [List.cons_append, pieces_cons_of_neg inside _ ih, pieces_cons_of_neg inside _ split]
      rfl

/-- Items without a separator are one run. -/
theorem pieces_of_free {items : List α} (free : ∀ item ∈ items, separates item = false) :
    pieces separates items = [items] := by
  induction items with
  | nil => rfl
  | cons item rest ih =>
    have later := ih fun other member => free other (List.mem_cons_of_mem _ member)
    exact pieces_cons_of_neg (free item List.mem_cons_self) _ later

end Pieces

/-! ### Digits -/

namespace Numeral

theorem digitValue?_digit {value : Nat} (small : value < 16) :
    digitValue? (digit value) = some value := by
  have checked : ∀ value < 16, digitValue? (digit value) = some value := by decide
  exact checked value small

theorem isDigit_digit {value : Nat} (small : value < 10) : Bytes.isDigit (digit value) = true := by
  have checked : ∀ value < 10, Bytes.isDigit (digit value) = true := by decide
  exact checked value small

theorem isAlphanumeric_digit {value : Nat} (small : value < 16) :
    Bytes.isAlphanumeric (digit value) = true := by
  have checked : ∀ value < 16, Bytes.isAlphanumeric (digit value) = true := by decide
  exact checked value small

/-- What reading one more digit does to the number read before. -/
def readDigit (base : Nat) (value? : Option Nat) (b : UInt8) : Option Nat :=
  match value?, digitValue? b with
  | some value, some d => if d < base then some (value * base + d) else none
  | _, _ => none

section Base

variable {base : Nat}

/-- Every digit that is written is one of the base. -/
theorem forall_digitsBefore {holds : UInt8 → Prop} (several : 2 ≤ base)
    (each : ∀ value < base, holds (digit value)) (fuel value : Nat) (after : Bytes)
    (enough : value < fuel) (rest : ∀ b ∈ after, holds b) :
    digitsBefore base fuel value after ≠ [] ∧
      ∀ b ∈ digitsBefore base fuel value after, holds b := by
  induction fuel generalizing value after with
  | zero => omega
  | succ fuel ih =>
    have more : ∀ {value : Nat}, value < base → ∀ b ∈ digit value :: after, holds b := by
      intro value small b member
      rcases List.mem_cons.1 member with rfl | later
      · exact each value small
      · exact rest b later
    rw [digitsBefore]
    split
    · rename_i small
      exact ⟨List.cons_ne_nil _ _, more small⟩
    · have smaller : value / base < fuel := by
        have := Nat.div_lt_self (n := value) (k := base) (by omega) several
        omega
      exact ih (value / base) _ smaller (more (Nat.mod_lt _ (by omega)))

theorem digits_ne_nil (several : 2 ≤ base) (value : Nat) : digits base value ≠ [] := by
  have written := @forall_digitsBefore base (fun _ => True) several (fun _ _ => trivial) (value + 1)
    value [] (by omega) nofun
  exact written.1

theorem forall_digits (holds : UInt8 → Prop) (several : 2 ≤ base)
    (each : ∀ value < base, holds (digit value)) (value : Nat) :
    ∀ b ∈ digits base value, holds b :=
  (forall_digitsBefore several each (value + 1) value [] (by omega) nofun).2

variable (most : base ≤ 16)
include most

theorem readDigit_digit (before : Nat) {value : Nat} (small : value < base) :
    readDigit base (some before) (digit value) = some (before * base + value) := by
  simp only [readDigit, digitValue?_digit (Nat.lt_of_lt_of_le small most), small, ↓reduceIte]

/-- Digits that were written before others are read before them. -/
theorem foldl_digitsBefore (several : 2 ≤ base) (fuel value : Nat) (after : Bytes)
    (enough : value < fuel) :
    (digitsBefore base fuel value after).foldl (readDigit base) (some 0) =
      after.foldl (readDigit base) (some value) := by
  induction fuel generalizing value after with
  | zero => omega
  | succ fuel ih =>
    rw [digitsBefore]
    split
    · rename_i small
      rw [List.foldl_cons, readDigit_digit most 0 small, Nat.zero_mul, Nat.zero_add]
    · have smaller : value / base < fuel := by
        have := Nat.div_lt_self (n := value) (k := base) (by omega) several
        omega
      rw [ih (value / base) _ smaller, List.foldl_cons,
        readDigit_digit most _ (Nat.mod_lt _ (by omega)), Nat.div_add_mod']

theorem foldl_zeros (several : 2 ≤ base) (zeros : Nat) :
    (List.replicate zeros (byte '0')).foldl (readDigit base) (some 0) = some 0 := by
  induction zeros with
  | zero => rfl
  | succ zeros ih =>
    have zero : readDigit base (some 0) (digit 0) = some (0 * base + 0) :=
      readDigit_digit most 0 (by omega)
    rw [Nat.zero_mul] at zero
    rw [List.replicate_succ, List.foldl_cons, show byte '0' = digit 0 from rfl, zero]
    exact ih

/-- A number is read back from its digits, also after zeros. -/
theorem read?_replicate_digits (several : 2 ≤ base) (zeros value : Nat) :
    read? base (List.replicate zeros (byte '0') ++ digits base value) = some value := by
  have nonempty : List.replicate zeros (byte '0') ++ digits base value ≠ [] := by
    intro empty
    exact digits_ne_nil several value (List.append_eq_nil_iff.1 empty).2
  have whole : (List.replicate zeros (byte '0') ++ digits base value).foldl (readDigit base)
      (some 0) = some value := by
    rw [List.foldl_append, foldl_zeros most several]
    exact foldl_digitsBefore most several (value + 1) value [] (by omega)
  unfold read?
  split
  · rename_i empty
    exact absurd empty nonempty
  · exact whole

end Base

/-- The digits of a number are read back as the number. -/
theorem read?_digits (value : Nat) : read? 10 (digits 10 value) = some value :=
  read?_replicate_digits (by omega) (by omega) 0 value

theorem digitsBefore_ten (fuel value : Nat) (after : Bytes) (enough : value < fuel) :
    digitsBefore 10 fuel value after = (Nat.toDigits 10 value).map Char.toUInt8 ++ after := by
  have written : ∀ value < 10, digit value = (Nat.digitChar value).toUInt8 := by decide
  induction fuel generalizing value after with
  | zero => omega
  | succ fuel ih =>
    rw [digitsBefore]
    split
    · rename_i small
      rw [Nat.toDigits_of_lt_base small, written value small]
      rfl
    · rename_i large
      rw [ih _ _ (by omega), Nat.toDigits_of_base_le (by omega) (Nat.le_of_not_lt large),
        written _ (Nat.mod_lt _ (by omega)), List.map_append, List.append_assoc]
      rfl

/-- The decimal numeral of a natural number is its usual one. -/
theorem decimal_natCast (value : Nat) : decimal value = ascii (toString value) := by
  change digits 10 value = _
  rw [digits, digitsBefore_ten _ _ _ (Nat.lt_succ_self value), List.append_nil, ascii,
    Nat.toString_eq_ofList_toDigits, String.toList_ofList]

theorem isDigit_of_mem_digits {value : Nat} {b : UInt8} (member : b ∈ digits 10 value) :
    Bytes.isDigit b = true :=
  forall_digits (Bytes.isDigit · = true) (by omega) (fun _ small => isDigit_digit small) value b
    member

theorem isAlphanumeric_of_mem_digits {value : Nat} {b : UInt8} (member : b ∈ digits 16 value) :
    Bytes.isAlphanumeric b = true :=
  forall_digits (Bytes.isAlphanumeric · = true) (by omega)
    (fun _ small => isAlphanumeric_digit small) value b member

end Numeral

/-! ### Hexadecimal fields -/

theorem hexField_eq (value : Int) : ∃ zeros, hexField value =
    List.replicate zeros (byte '0') ++ Numeral.digits 16 (value % 65536).toNat :=
  ⟨_, rfl⟩

theorem isAlphanumeric_of_mem_hexField {value : Int} {b : UInt8} (member : b ∈ hexField value) :
    Bytes.isAlphanumeric b = true := by
  obtain ⟨zeros, text⟩ := hexField_eq value
  rw [text] at member
  rcases List.mem_append.1 member with zero | digit
  · rw [List.eq_of_mem_replicate zero]
    rfl
  · exact Numeral.isAlphanumeric_of_mem_digits digit

/-- A number below 65536 is read back from its field. -/
theorem read?_hexField {value : Int} (lower : 0 ≤ value) (upper : value < 65536) :
    Numeral.read? 16 (hexField value) = some value.toNat := by
  obtain ⟨zeros, text⟩ := hexField_eq value
  rw [text, Numeral.read?_replicate_digits (by omega) (by omega), Int.emod_eq_of_lt lower upper]

end WordAssembler

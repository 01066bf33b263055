import Mathlib.Data.Int.ModEq
import WordAssembler.Proofs.Encoding
import WordAssembler.Expression.Evaluator

/-!
Arithmetic of words. Values are stored modulo the size of a word, so the 64-bit arithmetic of
expressions is exact on words, and an address in its field is added to the bits above.
-/

set_option autoImplicit false

namespace WordAssembler

abbrev SameInteger (first second : Int) : Prop := first ≡ second [ZMOD 2 ^ 64]

abbrev SameWord (first second : Int) : Prop := first ≡ second [ZMOD 65536]

theorem SameInteger.sameWord {first second : Int} (same : SameInteger first second) :
    SameWord first second :=
  same.of_dvd (by decide)

theorem Numeral.wrap_sameInteger (value : Int) : SameInteger (Numeral.wrap value) value := by
  have wrapped : Numeral.wrap value ≡ value [ZMOD (Numeral.powerOfTwo 64 : Nat)] := Int.bmod_emod
  exact wrapped

theorem SameInteger.eq_of_near {first second : Int} (same : SameInteger first second)
    (lower : -2 ^ 64 < second - first) (upper : second - first < 2 ^ 64) : first = second := by
  have multiple := same.dvd
  omega

namespace Word

theorem ofInt_congr {first second : Int} (same : SameWord first second) :
    Word.ofInt first = Word.ofInt second := by
  apply BitVec.eq_of_toNat_eq
  rw [Word.ofInt, Word.ofInt, BitVec.toNat_ofInt, BitVec.toNat_ofInt]
  exact congrArg Int.toNat same

theorem ofInt_add (first second : Int) :
    Word.ofInt (first + second) = Word.ofInt first + Word.ofInt second := by
  apply BitVec.eq_of_toInt_eq
  simp [Word.ofInt]

/-- A small value is stored as it is, also after the conversion of a negative one. -/
theorem ofInt_convert {value : Int} (lower : -Word.lastAddress ≤ value)
    (upper : value ≤ Word.lastAddress) :
    Word.ofInt (Word.convert value Word.bits) = Word.ofInt value := by
  have half : ((Numeral.powerOfTwo ((Word.bits : Int).toNat - 1) : Nat) : Int) = 32768 := rfl
  have width : Word.isWidth Word.bits = true := by decide
  unfold Word.lastAddress at lower upper
  apply ofInt_congr
  simp only [Word.convert, width, ↓reduceIte, half]
  split
  · rfl
  · rw [if_pos (by omega)]
    change (2 * 32768 + value) % 65536 = value % 65536
    omega

/-! ### The address field -/

theorem getLsbD_addressMask {offset : Nat} (inside : offset < 16) :
    addressMask.getLsbD offset = decide (offset < 10) := by
  have checked : ∀ offset < 16, addressMask.getLsbD offset = decide (offset < 10) := by decide
  exact checked offset inside

section Address

variable {address : Int} (lower : 0 ≤ address) (upper : address ≤ Word.lastAddress)
include lower upper

theorem toNat_ofInt_address : (Word.ofInt address).toNat = address.toNat := by
  unfold Word.lastAddress at upper
  exact ofInt_toNat lower (by omega)

/-- An address has no bits above its field. -/
theorem getLsbD_ofInt_address {offset : Nat} (above : 10 ≤ offset) :
    (Word.ofInt address).getLsbD offset = false := by
  have small : (Word.ofInt address).toNat < 2 ^ offset := by
    rw [toNat_ofInt_address lower upper]
    have field : 2 ^ 10 ≤ 2 ^ offset := Nat.pow_le_pow_right (by decide) above
    unfold Word.lastAddress at upper
    omega
  exact Nat.testBit_lt_two_pow small

theorem withAddress_and_mask (word : Word) :
    word.withAddress address &&& addressMask = Word.ofInt address := by
  apply BitVec.eq_of_getLsbD_eq
  intro offset inside
  simp only [withAddress, BitVec.getLsbD_and, BitVec.getLsbD_or, BitVec.getLsbD_not,
    getLsbD_addressMask inside]
  by_cases low : offset < 10
  · simp [low, inside]
  · simp [low, getLsbD_ofInt_address lower upper (Nat.le_of_not_lt low)]

/-- Setting the address keeps the six bits above it. -/
theorem withAddress_shift (word : Word) : word.withAddress address >>> 10 = word >>> 10 := by
  apply BitVec.eq_of_getLsbD_eq
  intro offset _
  simp only [withAddress, BitVec.getLsbD_ushiftRight, BitVec.getLsbD_or, BitVec.getLsbD_and,
    BitVec.getLsbD_not, getLsbD_ofInt_address lower upper (Nat.le_add_right 10 offset)]
  by_cases inside : 10 + offset < 16
  · rw [getLsbD_addressMask inside]
    simp [inside]
  · simp [BitVec.getLsbD_of_ge word (10 + offset) (by omega)]

/-- The address is added to the bits above its field. -/
theorem withAddress_eq_add (word : Word) :
    word.withAddress address = (word &&& ~~~addressMask) + Word.ofInt address := by
  rw [withAddress, BitVec.add_eq_or_of_and_eq_zero]
  apply BitVec.eq_of_getLsbD_eq
  intro offset inside
  simp only [BitVec.getLsbD_and, BitVec.getLsbD_not, getLsbD_addressMask inside,
    BitVec.getLsbD_zero]
  by_cases low : offset < 10
  · simp [low]
  · simp [getLsbD_ofInt_address lower upper (Nat.le_of_not_lt low)]

end Address

end Word

/-! ### Adjustments and expressions -/

/-- How often a list of adjustments adds the address of a label, less how often it subtracts it. -/
def net (label : Bytes) (adjustments : List Adjustment) : Int :=
  adjustments.countP (fun adjustment => adjustment.positive && adjustment.label == label) -
    adjustments.countP (fun adjustment => !adjustment.positive && adjustment.label == label)

@[simp] theorem net_nil (label : Bytes) : net label [] = 0 := rfl

theorem net_append (label : Bytes) (first second : List Adjustment) :
    net label (first ++ second) = net label first + net label second := by
  simp only [net, List.countP_append]
  omega

theorem net_own (label : Bytes) (positive : Bool) :
    net label [⟨positive, label⟩] = if positive then 1 else -1 := by
  cases positive <;> simp [net]

theorem net_foreign {label other : Bytes} (apart : other ≠ label) (positive : Bool) :
    net label [⟨positive, other⟩] = 0 := by
  simp [net, apart]

theorem Stack.ofList_eq {α : Type} (values : List α) : Stack.ofList values = ⟨values⟩ := by
  have pushed : ∀ (values : List α) (below : Stack α),
      values.reverse.foldl Stack.push below = ⟨values ++ below.items⟩ := by
    intro values
    induction values with
    | nil => exact fun below => rfl
    | cons value values ih =>
      intro below
      rw [List.reverse_cons, List.foldl_append, List.foldl_cons, List.foldl_nil, ih]
      rfl
  rw [Stack.ofList, pushed, Stack.empty, List.append_nil]

namespace Expression

section

variable {operator : UInt8} (isOperator : Expression.isOperator operator = true)
include isOperator

theorem apply_sameInteger (left right : Int) :
    SameInteger (apply operator left right)
      (left + if operator == byte '+' then right else -right) := by
  unfold apply
  by_cases plus : operator = byte '+'
  · rw [if_pos plus, if_pos (by simpa using plus)]
    exact Numeral.wrap_sameInteger _
  · have minus : operator = byte '-' := by simpa [Expression.isOperator, plus] using isOperator
    rw [if_neg plus, if_pos minus, if_neg (by simpa using plus), ← sub_eq_add_neg]
    exact Numeral.wrap_sameInteger _

theorem apply_sameWord (left right : Int) :
    SameWord (apply operator left right)
      (left + if operator == byte '+' then right else -right) :=
  (apply_sameInteger isOperator left right).sameWord

end

/-- The sum of values, each added or subtracted by the operator before it. -/
def signedSum (terms : List (Int × UInt8)) : Int :=
  (terms.map fun (value, operator) => if operator == byte '+' then value else -value).sum

@[simp] theorem signedSum_nil : signedSum [] = 0 := rfl

@[simp] theorem signedSum_cons (value : Int) (operator : UInt8) (terms : List (Int × UInt8)) :
    signedSum ((value, operator) :: terms) =
      (if operator == byte '+' then value else -value) + signedSum terms :=
  List.sum_cons

theorem collapse_sameInteger {operators : Bytes} {values : List Int}
    (isOperator : ∀ operator ∈ operators, Expression.isOperator operator = true)
    (lengths : values.length = operators.length) (first : Int) :
    SameInteger (collapse operators ⟨first :: values⟩)
      (first + signedSum (values.zip operators)) := by
  induction operators generalizing values first with
  | nil => simp [collapse, Stack.peek?, signedSum_nil]
  | cons operator operators ih =>
    cases values with
    | nil => cases lengths
    | cons value values =>
      have here := apply_sameInteger (isOperator operator List.mem_cons_self) first value
      have later := ih (fun other member => isOperator other (List.mem_cons_of_mem _ member))
        (Nat.succ.inj lengths) (apply operator first value)
      rw [List.zip_cons_cons, signedSum_cons, ← add_assoc]
      exact later.trans (here.add_right _)

/-- The value of an expression is the sum of its terms, the first of them added. -/
theorem reduce_sameInteger {operators : Bytes} {values : List Int}
    (isOperator : ∀ operator ∈ operators, Expression.isOperator operator = true)
    (lengths : values.length = operators.length + 1) :
    SameInteger (reduce values operators) (signedSum (values.zip (byte '+' :: operators))) := by
  cases values with
  | nil => cases lengths
  | cons first values =>
    rw [reduce, Stack.ofList_eq, Stack.ofList_eq, List.zip_cons_cons, signedSum_cons]
    exact collapse_sameInteger isOperator (Nat.succ.inj lengths) first

end Expression

end WordAssembler

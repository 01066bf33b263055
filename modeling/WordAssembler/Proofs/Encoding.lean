import WordAssembler.Assembly.Encoding
import WordAssembler.Proofs.Pass
import WordAssembler.Proofs.Uppercase

/-!
What an encoded word keeps of its instruction. The operand stays below the bitcode, so the bitcode
of the word is that of the table; and only the two functions that take no operand are refused with
less than a serious diagnostic.
-/

set_option autoImplicit false

namespace WordAssembler

namespace Bitcode

theorem ofWord_or (first second : Word) :
    ofWord (first ||| second) = ofWord first ||| ofWord second := by
  apply BitVec.eq_of_getLsbD_eq
  intro offset small
  simp [ofWord, small]

theorem ofWord_and (first second : Word) :
    ofWord (first &&& second) = ofWord first &&& ofWord second := by
  apply BitVec.eq_of_getLsbD_eq
  intro offset small
  simp [ofWord, small]

theorem ofWord_toWord (bitcode : Bitcode) : ofWord bitcode.toWord = bitcode := by
  apply BitVec.eq_of_getLsbD_eq
  intro offset small
  have inside : 11 + offset < 16 := by omega
  simp [ofWord, toWord, small, inside]

/-- A word that ends below the bitcode. -/
theorem ofWord_of_low {word : Word} (low : word.toNat < 2048) : ofWord word = 0 := by
  apply BitVec.eq_of_toNat_eq
  simp only [ofWord, BitVec.toNat_setWidth, BitVec.toNat_ushiftRight, Nat.shiftRight_eq_div_pow]
  have zero : word.toNat / 2 ^ 11 = 0 := Nat.div_eq_of_lt low
  rw [zero]
  rfl

end Bitcode

namespace Word

theorem ofInt_toNat {value : Int} (lower : 0 ≤ value) (upper : value < 65536) :
    (Word.ofInt value).toNat = value.toNat := by
  rw [Word.ofInt, BitVec.toNat_ofInt]
  congr 1
  exact Int.emod_eq_of_lt lower upper

/-- A short value stays below the bitcode. -/
theorem ofWord_ofInt {value : Int} (lower : 0 ≤ value) (upper : value ≤ 2047) :
    Bitcode.ofWord (Word.ofInt value) = 0 := by
  apply Bitcode.ofWord_of_low
  rw [ofInt_toNat lower (by omega)]
  omega

theorem ofWord_flagBit : Bitcode.ofWord flagBit = 0 := rfl

theorem ofWord_addressMask : Bitcode.ofWord addressMask = 0 := rfl

/-- Setting the address keeps the bitcode. -/
theorem ofWord_withAddress (word : Word) {address : Int} (lower : 0 ≤ address)
    (upper : address ≤ 2047) :
    Bitcode.ofWord (word.withAddress address) = Bitcode.ofWord word := by
  have above : Bitcode.ofWord (~~~addressMask) = BitVec.allOnes 5 := rfl
  rw [withAddress, Bitcode.ofWord_or, Bitcode.ofWord_and, above, BitVec.and_allOnes,
    ofWord_ofInt lower upper]
  exact BitVec.or_zero

end Word

theorem Opcodes.find?_upper (table : Opcodes) (group : Group) (function : Bytes) :
    table.find? group (upper function) = table.find? group function := by
  unfold find?
  rw [upper_upper]

/-- The operation bits of an instruction of the table. -/
theorem Opcodes.operation_of_find? {table : Opcodes} {group : Group} {function : Bytes}
    {entry : Opcode} (found : table.find? group function = some entry) :
    table.operation group function = .ok entry.bitcode.toWord := by
  have listed : table.hasGroup group = true := by
    unfold find? at found
    have member := List.mem_of_find?_eq_some found
    have same := List.find?_some found
    simp only [Bool.and_eq_true] at same
    exact List.any_eq_true.2 ⟨entry, member, same.1⟩
  simp only [operation, bitcode, listed, ↓reduceIte, found, Except.map]

namespace Instruction

variable {instruction : Instruction}

theorem ofWord_functionFlag : Bitcode.ofWord instruction.functionFlag = 0 := by
  unfold functionFlag
  split <;> rfl

theorem ofWord_valueWord (lower : 0 ≤ instruction.operand.value)
    (upper : instruction.operand.value ≤ Word.lastAddress) :
    Bitcode.ofWord instruction.valueWord = 0 :=
  Word.ofWord_ofInt lower (by unfold Word.lastAddress at upper; omega)

variable {operation word : Word} (lower : 0 ≤ instruction.operand.value)

theorem encodeControl_bitcode (encoded : instruction.encodeControl operation = .ok word) :
    Bitcode.ofWord word = Bitcode.ofWord operation := by
  unfold encodeControl at encoded
  split at encoded
  · cases encoded
  · cases encoded
    split
    · rw [Bitcode.ofWord_or, Bitcode.ofWord_and, Word.ofWord_addressMask]
      simp
    · rfl

include lower

theorem encodeStack_bitcode (encoded : instruction.encodeStack operation = .ok word) :
    Bitcode.ofWord word = Bitcode.ofWord operation := by
  unfold encodeStack at encoded
  dsimp only at encoded
  split at encoded
  · cases encoded
  · split at encoded
    · split at encoded
      · rename_i upper
        have value := ofWord_valueWord lower upper
        cases encoded
        split
        · rw [Bitcode.ofWord_or, Bitcode.ofWord_or, value, Word.ofWord_flagBit]
          simp
        · rw [Bitcode.ofWord_or, value]
          simp
      · cases encoded
    · split at encoded
      · cases encoded
        rw [Bitcode.ofWord_or, Word.ofWord_flagBit]
        simp
      · split at encoded
        · cases encoded
          rfl
        · cases encoded

theorem encodeAddress_bitcode {range : Key}
    (encoded : instruction.encodeAddress range operation = .ok word) :
    Bitcode.ofWord word = Bitcode.ofWord operation := by
  unfold encodeAddress at encoded
  dsimp only at encoded
  split at encoded
  · cases encoded
  · split at encoded
    · split at encoded
      · rename_i upper
        cases encoded
        rw [Bitcode.ofWord_or, Bitcode.ofWord_or, ofWord_valueWord lower upper,
          ofWord_functionFlag]
        simp
      · cases encoded
    · split at encoded
      · cases encoded
        rw [Bitcode.ofWord_or, ofWord_functionFlag]
        simp
      · cases encoded

theorem encodeShort_bitcode (encoded : instruction.encodeShort operation = .ok word) :
    Bitcode.ofWord word = Bitcode.ofWord operation := by
  unfold encodeShort at encoded
  split at encoded
  · rename_i short
    have upper : instruction.operand.value ≤ Word.lastAddress :=
      Int.le_trans short.2 (by decide)
    cases encoded
    rw [Bitcode.ofWord_or, Bitcode.ofWord_or, ofWord_valueWord lower upper, ofWord_functionFlag]
    simp
  · cases encoded

/-- The bitcode of an encoded instruction is that of its entry in the table. -/
theorem encode_bitcode {table : Opcodes} {entry : Opcode} (listed : instruction.group ∈ Group.all)
    (found : table.find? instruction.group instruction.function = some entry)
    (encoded : instruction.encode table = .ok word) : Bitcode.ofWord word = entry.bitcode := by
  rw [encode, Opcodes.operation_of_find? found] at encoded
  rw [← Bitcode.ofWord_toWord entry.bitcode]
  cases group : instruction.group with
  | cntl =>
    rw [group] at encoded
    exact encodeControl_bitcode encoded
  | stack =>
    rw [group] at encoded
    exact encodeStack_bitcode lower encoded
  | jump =>
    rw [group] at encoded
    exact encodeAddress_bitcode lower encoded
  | soper =>
    rw [group] at encoded
    exact encodeShort_bitcode lower encoded
  | moper =>
    rw [group] at encoded
    exact encodeAddress_bitcode lower encoded
  | other code =>
    rw [group] at listed
    simp [Group.all] at listed

omit lower

/-! ### Refusals -/

/-- The instruction is one of the two that take no operand, and has one. -/
def Overloaded (instruction : Instruction) : Prop :=
  instruction.group = .cntl ∧
    (instruction.function = ascii "CLRD" ∨ instruction.function = ascii "CLRT") ∧
    instruction.operand.kind ≠ .none

instance : DecidablePred Overloaded := fun _ => inferInstanceAs (Decidable (_ ∧ _ ∧ _))

/-- An overloaded instruction is refused for its operand. -/
theorem Overloaded.controlFault? (overloaded : instruction.Overloaded) :
    instruction.controlFault? = some .noOperand := by
  obtain ⟨_, function, given⟩ := overloaded
  have notHalt : instruction.function ≠ ascii "HALT" := by
    rcases function with same | same <;> rw [same] <;> decide
  have notDump : instruction.function ≠ ascii "DUMP" := by
    rcases function with same | same <;> rw [same] <;> decide
  simp only [Instruction.controlFault?, notHalt, notDump, function, given, ↓reduceIte]

/-- A control instruction that is refused with less than a serious diagnostic is overloaded. -/
theorem overloaded_of_controlFault? {key : Key} (control : instruction.group = .cntl)
    (fault : instruction.controlFault? = some key) (mild : key.severity.isError = false) :
    instruction.Overloaded := by
  unfold controlFault? at fault
  dsimp only at fault
  split at fault
  · split at fault
    · cases fault
    · cases fault
      cases mild
  · split at fault
    · split at fault
      · cases fault
      · cases fault
        cases mild
    · split at fault
      · rename_i function
        split at fault
        · cases fault
        · rename_i given
          exact ⟨control, function, given⟩
      · repeat' split at fault
        all_goals cases fault
        cases mild

section Table

variable {table : Opcodes} {entry : Opcode}
  (found : table.find? instruction.group instruction.function = some entry)
include found

theorem Overloaded.encode (overloaded : instruction.Overloaded) :
    instruction.encode table = .error .noOperand := by
  rw [Instruction.encode, Opcodes.operation_of_find? found, overloaded.1]
  simp only [encodeControl, overloaded.controlFault?]

/-- Only an overloaded instruction is refused with less than a serious diagnostic. -/
theorem overloaded_of_encode {key : Key} (refused : instruction.encode table = .error key)
    (mild : key.severity.isError = false) : instruction.Overloaded := by
  rw [Instruction.encode, Opcodes.operation_of_find? found] at refused
  have address : ∀ {range : Key} {operation : Word}, range.severity.isError = true →
      instruction.encodeAddress range operation ≠ .error key := by
    intro range operation severe refused
    unfold encodeAddress at refused
    dsimp only at refused
    repeat' split at refused
    all_goals cases refused
    · cases mild
    · rw [severe] at mild
      cases mild
    · cases mild
  cases group : instruction.group with
  | cntl =>
    rw [group] at refused
    simp only [encodeControl] at refused
    split at refused
    · rename_i fault
      cases refused
      exact overloaded_of_controlFault? group fault mild
    · cases refused
  | stack =>
    rw [group] at refused
    simp only [encodeStack] at refused
    repeat' split at refused
    all_goals
      cases refused
      try cases mild
  | jump =>
    rw [group] at refused
    exact absurd refused (address rfl)
  | soper =>
    rw [group] at refused
    simp only [encodeShort] at refused
    split at refused
    · cases refused
    · cases refused
      cases mild
  | moper =>
    rw [group] at refused
    exact absurd refused (address rfl)
  | other code =>
    rw [group] at refused
    cases refused

end Table

end Instruction

end WordAssembler

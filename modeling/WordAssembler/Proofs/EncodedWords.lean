import WordAssembler.Proofs.Arithmetic

/-!
The parts of an encoded word. Bitcode, flag bit and address field do not overlap, whatever the opcode
table: an operand is checked or masked before it is put below the bitcode. So the bitcode leads back
to an entry of the table, the flag bit says what kind of operand there is, and the address field holds
the value of the operand, or nothing as long as that is not known.
-/

set_option autoImplicit false

namespace WordAssembler

namespace Bitcode

theorem parse?_digits (bitcode : Bitcode) : parse? bitcode.digits = some bitcode := by
  revert bitcode
  decide +kernel

theorem getLsbD_toWord (bitcode : Bitcode) {offset : Nat} (low : offset < 11) :
    bitcode.toWord.getLsbD offset = false := by
  rw [toWord, BitVec.getLsbD_shiftLeft]
  simp [low]

end Bitcode

namespace Word

/-- A short value has eight bits at most. -/
theorem getLsbD_ofInt_short {value : Int} {offset : Nat} (lower : 0 ≤ value)
    (upper : value ≤ Instruction.shortLargest) (above : 8 ≤ offset) :
    (Word.ofInt value).getLsbD offset = false := by
  unfold Instruction.shortLargest at upper
  have small : (Word.ofInt value).toNat < 2 ^ offset := by
    have field : 2 ^ 8 ≤ 2 ^ offset := Nat.pow_le_pow_right (by decide) above
    rw [ofInt_toNat lower (by omega)]
    omega
  exact Nat.testBit_lt_two_pow small

theorem or_and_mask (first second : Word) : (first ||| second) &&& addressMask =
    (first &&& addressMask) ||| (second &&& addressMask) := by
  apply BitVec.eq_of_getLsbD_eq
  intro offset _
  simp only [BitVec.getLsbD_and, BitVec.getLsbD_or, Bool.and_or_distrib_right]

theorem and_mask_mask (word : Word) :
    word &&& addressMask &&& addressMask = word &&& addressMask := by
  rw [BitVec.and_assoc, BitVec.and_self]

theorem flagBit_and_mask : flagBit &&& addressMask = 0 := rfl

theorem toWord_and_mask (bitcode : Bitcode) : bitcode.toWord &&& addressMask = 0 := by
  apply BitVec.eq_of_getLsbD_eq
  intro offset inside
  rw [BitVec.getLsbD_and, getLsbD_addressMask inside]
  by_cases low : offset < 10
  · rw [Bitcode.getLsbD_toWord bitcode (by omega), Bool.false_and]
    exact BitVec.getLsbD_zero.symm
  · simp [low]

end Word

namespace Instruction

variable {instruction : Instruction}

/-- The address field that encoding leaves: the value of the operand, if it has one already. -/
def field (instruction : Instruction) : Word :=
  if instruction.isNumeric then instruction.valueWord &&& Word.addressMask else 0

theorem functionFlag_and_mask : instruction.functionFlag &&& Word.addressMask = 0 := by
  unfold functionFlag
  split <;> rfl

section Operation

variable {operation word : Word} (bare : operation &&& Word.addressMask = 0)
include bare

theorem encodeControl_field (encoded : instruction.encodeControl operation = .ok word) :
    word &&& Word.addressMask = instruction.field := by
  unfold encodeControl at encoded
  split at encoded
  · cases encoded
  · cases encoded
    unfold field
    split
    · simp [Word.or_and_mask, bare, Word.and_mask_mask]
    · exact bare

theorem encodeStack_field (encoded : instruction.encodeStack operation = .ok word) :
    word &&& Word.addressMask = instruction.field := by
  unfold encodeStack at encoded
  unfold field
  dsimp only at encoded
  split at encoded
  · cases encoded
  · split at encoded
    · rename_i numeric
      rw [if_pos numeric]
      split at encoded
      · cases encoded
        split
        · simp [Word.or_and_mask, bare, Word.flagBit_and_mask]
        · simp [Word.or_and_mask, bare]
      · cases encoded
    · rename_i open_
      rw [if_neg open_]
      split at encoded
      · cases encoded
        simp [Word.or_and_mask, bare, Word.flagBit_and_mask]
      · split at encoded
        · cases encoded
          exact bare
        · cases encoded

theorem encodeAddress_field {range : Key}
    (encoded : instruction.encodeAddress range operation = .ok word) :
    word &&& Word.addressMask = instruction.field := by
  unfold encodeAddress at encoded
  unfold field
  dsimp only at encoded
  split at encoded
  · cases encoded
  · split at encoded
    · rename_i numeric
      rw [if_pos numeric]
      split at encoded
      · cases encoded
        simp [Word.or_and_mask, bare, functionFlag_and_mask]
      · cases encoded
    · rename_i open_
      rw [if_neg open_]
      split at encoded
      · cases encoded
        simp [Word.or_and_mask, bare, functionFlag_and_mask]
      · cases encoded

theorem encodeShort_field (encoded : instruction.encodeShort operation = .ok word) :
    word &&& Word.addressMask = instruction.field := by
  unfold encodeShort at encoded
  split at encoded
  · rename_i short
    cases encoded
    simp [field, short.1, Word.or_and_mask, bare, functionFlag_and_mask]
  · cases encoded

end Operation

/-- The operation bits of a table lie above the flag bit. -/
theorem operation_ok {table : Opcodes} {group : Group} {function : Bytes} {operation : Word}
    (known : table.operation group function = .ok operation) :
    ∃ bitcode, table.bitcode group function = .ok bitcode ∧ operation = bitcode.toWord := by
  unfold Opcodes.operation at known
  cases code : table.bitcode group function with
  | error missing =>
    rw [code] at known
    cases known
  | ok bitcode =>
    rw [code] at known
    cases known
    exact ⟨bitcode, rfl, rfl⟩

/-- An encoded word has the value of the operand in its address field, or nothing. -/
theorem encode_field {table : Opcodes} {word : Word} (listed : instruction.group ∈ Group.all)
    (encoded : instruction.encode table = .ok word) :
    word &&& Word.addressMask = instruction.field := by
  unfold encode at encoded
  split at encoded
  · cases encoded
  · rename_i operation found
    have bare : operation &&& Word.addressMask = 0 := by
      obtain ⟨bitcode, _, rfl⟩ := operation_ok found
      exact Word.toWord_and_mask bitcode
    split at encoded
    · exact encodeControl_field bare encoded
    · exact encodeStack_field bare encoded
    · exact encodeAddress_field bare encoded
    · exact encodeAddress_field bare encoded
    · exact encodeShort_field bare encoded
    · rename_i other group
      rw [group] at listed
      simp [Group.all] at listed

/-! ### The flag bit -/

/-- The flag bit is set: by a character function where the operand is an address, and by a literal
operand or an expression where it is put on the stack. -/
def Flagged (instruction : Instruction) : Prop :=
  (instruction.group = .jump ∨ instruction.group = .soper ∨ instruction.group = .moper) ∧
      isCharacterFunction instruction.function = true ∨
    instruction.group = .stack ∧
      (instruction.isNumeric = true ∧ instruction.relocations = 0 ∨
        instruction.operand.kind = .expression ∧ instruction.equated = none)

theorem getLsbD_functionFlag (offset : Nat) : instruction.functionFlag.getLsbD offset =
    (isCharacterFunction instruction.function && decide (offset = 10)) := by
  unfold functionFlag
  by_cases character : isCharacterFunction instruction.function = true
  · have single : Word.flagBit = BitVec.twoPow 16 10 := rfl
    rw [if_pos character, character, single, BitVec.getLsbD_twoPow]
    simp [eq_comm]
  · rw [if_neg character]
    simp [character]

section Flag

variable {bitcode : Bitcode} {word : Word}

theorem encodeControl_flag (encoded : instruction.encodeControl bitcode.toWord = .ok word) :
    word.getLsbD 10 = false := by
  have bare : bitcode.toWord.getLsbD 10 = false := bitcode.getLsbD_toWord (by decide)
  have above : Word.addressMask.getLsbD 10 = false := rfl
  unfold encodeControl at encoded
  split at encoded
  · cases encoded
  · cases encoded
    split
    · rw [BitVec.getLsbD_or, BitVec.getLsbD_and, bare, above, Bool.and_false, Bool.or_false]
    · exact bare

variable (lower : 0 ≤ instruction.operand.value)
include lower

theorem encodeStack_flag (encoded : instruction.encodeStack bitcode.toWord = .ok word) :
    word.getLsbD 10 = true ↔ instruction.isNumeric = true ∧ instruction.relocations = 0 ∨
      instruction.operand.kind = .expression ∧ instruction.equated = none := by
  have bare : bitcode.toWord.getLsbD 10 = false := bitcode.getLsbD_toWord (by decide)
  have flag : Word.flagBit.getLsbD 10 = true := rfl
  unfold encodeStack at encoded
  dsimp only at encoded
  split at encoded
  · cases encoded
  · split at encoded
    · rename_i numeric
      have valued : ¬ (instruction.operand.kind = .expression ∧ instruction.equated = none) := by
        rintro ⟨kind, equated⟩
        rw [isNumeric, kind, equated] at numeric
        cases numeric
      split at encoded
      · rename_i upper
        have value : instruction.valueWord.getLsbD 10 = false :=
          Word.getLsbD_ofInt_address lower upper (Nat.le_refl 10)
        cases encoded
        by_cases literal : instruction.relocations = 0
        · rw [if_pos literal, BitVec.getLsbD_or, flag, Bool.or_true]
          exact iff_of_true rfl (Or.inl ⟨numeric, literal⟩)
        · rw [if_neg literal, BitVec.getLsbD_or, bare, value]
          exact iff_of_false Bool.false_ne_true (by simp [literal, valued])
      · cases encoded
    · rename_i open_
      have unequated : instruction.equated = none := by
        rw [isNumeric, Bool.or_eq_true, not_or] at open_
        simpa using open_.2
      split at encoded
      · rename_i expression
        cases encoded
        rw [BitVec.getLsbD_or, flag, Bool.or_true]
        exact iff_of_true rfl (Or.inr ⟨expression, unequated⟩)
      · rename_i other
        split at encoded
        · cases encoded
          rw [bare]
          exact iff_of_false Bool.false_ne_true (by simp [open_, other])
        · cases encoded

theorem encodeAddress_flag {range : Key}
    (encoded : instruction.encodeAddress range bitcode.toWord = .ok word) :
    word.getLsbD 10 = isCharacterFunction instruction.function := by
  have bare : bitcode.toWord.getLsbD 10 = false := bitcode.getLsbD_toWord (by decide)
  have character := instruction.getLsbD_functionFlag 10
  rw [decide_eq_true rfl, Bool.and_true] at character
  unfold encodeAddress at encoded
  dsimp only at encoded
  split at encoded
  · cases encoded
  · split at encoded
    · split at encoded
      · rename_i upper
        have value : instruction.valueWord.getLsbD 10 = false :=
          Word.getLsbD_ofInt_address lower upper (Nat.le_refl 10)
        cases encoded
        rw [BitVec.getLsbD_or, BitVec.getLsbD_or, bare, character, value, Bool.false_or,
          Bool.or_false]
      · cases encoded
    · split at encoded
      · cases encoded
        rw [BitVec.getLsbD_or, bare, character, Bool.false_or]
      · cases encoded

/-- Above a short operand there is nothing but the flag bit and the bitcode. -/
theorem encodeShort_bit (encoded : instruction.encodeShort bitcode.toWord = .ok word)
    {offset : Nat} (above : 8 ≤ offset) (below : offset < 11) : word.getLsbD offset =
      (isCharacterFunction instruction.function && decide (offset = 10)) := by
  unfold encodeShort at encoded
  split at encoded
  · rename_i short
    have value : instruction.valueWord.getLsbD offset = false :=
      Word.getLsbD_ofInt_short lower short.2 above
    cases encoded
    rw [BitVec.getLsbD_or, BitVec.getLsbD_or, bitcode.getLsbD_toWord below, getLsbD_functionFlag,
      value, Bool.false_or, Bool.or_false]
  · cases encoded

/-- The flag bit tells the kind of the operand, or of the function. -/
theorem encode_flag {table : Opcodes} (listed : instruction.group ∈ Group.all)
    (encoded : instruction.encode table = .ok word) :
    word.getLsbD 10 = true ↔ instruction.Flagged := by
  unfold encode at encoded
  split at encoded
  · cases encoded
  · rename_i operation found
    obtain ⟨bitcode, _, rfl⟩ := operation_ok found
    unfold Flagged
    cases group : instruction.group with
    | cntl =>
      rw [group] at encoded
      rw [encodeControl_flag encoded]
      simp
    | stack =>
      rw [group] at encoded
      rw [encodeStack_flag lower encoded]
      simp
    | jump =>
      rw [group] at encoded
      rw [encodeAddress_flag lower encoded]
      simp
    | soper =>
      rw [group] at encoded
      rw [encodeShort_bit lower encoded (by decide) (by decide)]
      simp
    | moper =>
      rw [group] at encoded
      rw [encodeAddress_flag lower encoded]
      simp
    | other code =>
      rw [group] at listed
      simp [Group.all] at listed

end Flag

end Instruction

/-! ### The table -/

namespace Opcodes

variable {table : Opcodes} {group : Group} {function : Bytes} {bitcode : Bitcode}

/-- The instruction on a line of a table text is one of the five groups. -/
theorem group_of_readLine {line : Bytes} {entry : Opcode} (read : readLine line = .ok (some entry)) :
    entry.group ∈ Group.all := by
  unfold readLine at read
  split at read
  · cases read
  · split at read
    · cases read
    · rename_i group known
      split at read
      · cases read
      · cases read
        exact List.mem_of_find?_eq_some known
  · cases read

theorem groups_of_readFrom {tooLong : Bool} {read entries : List Opcode} {number : Nat}
    {last : Bytes} {lines : List Bytes} (before : ∀ entry ∈ read, entry.group ∈ Group.all)
    (all : readFrom tooLong read number last lines = .ok entries) :
    ∀ entry ∈ entries, entry.group ∈ Group.all := by
  induction lines generalizing read number last with
  | nil =>
    simp only [readFrom] at all
    split at all
    · cases all
    · cases all
      intro entry member
      exact before entry (List.mem_reverse.1 member)
  | cons line rest ih =>
    simp only [readFrom] at all
    split at all
    · cases all
    · exact ih before all
    · rename_i entry known
      split at all
      · cases all
      · refine ih (fun other member => ?_) all
        rcases List.mem_cons.1 member with rfl | old
        · exact group_of_readLine known
        · exact before other old

theorem groups_of_parse {text : Bytes} (read : parse text = .ok table) :
    ∀ entry ∈ table.entries, entry.group ∈ Group.all := by
  unfold parse at read
  dsimp only at read
  cases entries : readFrom (Lines.read text).tooLong [] 0 [] (Lines.read text).lines with
  | error fault =>
    rw [entries] at read
    cases read
  | ok found =>
    rw [entries] at read
    cases read
    exact groups_of_readFrom (fun _ none => absurd none List.not_mem_nil) entries

/-- An instruction with a bitcode has an entry. -/
theorem entry_of_bitcode (known : table.bitcode group function = .ok bitcode) :
    ∃ entry ∈ table.entries, entry.group = group ∧ entry.bitcode = bitcode ∧
      table.find? group function = some entry := by
  unfold Opcodes.bitcode at known
  split at known
  · split at known
    · rename_i entry found
      cases known
      have same := List.find?_some found
      rw [Bool.and_eq_true, beq_iff_eq] at same
      exact ⟨entry, List.mem_of_find?_eq_some found, same.1, rfl, found⟩
    · cases known
  · cases known

/-- The bitcode of an instruction is found again, if perhaps first in another entry. -/
theorem withBitcode?_of_bitcode (known : table.bitcode group function = .ok bitcode) :
    ∃ entry, table.withBitcode? bitcode = some entry ∧ entry.bitcode = bitcode := by
  obtain ⟨entry, member, _, same, _⟩ := entry_of_bitcode known
  cases found : table.withBitcode? bitcode with
  | none =>
    have other := List.find?_eq_none.1 found entry member
    simp [same] at other
  | some first => exact ⟨first, rfl, by simpa using List.find?_some found⟩

theorem withDigits?_digits (table : Opcodes) (bitcode : Bitcode) :
    table.withDigits? bitcode.digits = table.withBitcode? bitcode := by
  rw [withDigits?, Bitcode.parse?_digits, Option.bind_some]

end Opcodes

/-- The fields of an encoded word. Its bitcode is that of the instruction and leads back to an entry
of the table, its flag bit is that of the instruction, a short instruction leaves the two bits below
clear, and an operand whose value is not known yet leaves the address field clear. -/
theorem Instruction.encode_fields (text : Bytes) (table : Opcodes) (instruction : Instruction)
    (word : Word) (read : Opcodes.parse text = .ok table) (lower : 0 ≤ instruction.operand.value)
    (encoded : instruction.encode table = .ok word) :
    ∃ bitcode entry,
      table.bitcode instruction.group instruction.function = .ok bitcode ∧
      Bitcode.ofWord word = bitcode ∧
      table.decode? word = table.withDigits? bitcode.digits ∧
      table.withDigits? bitcode.digits = some entry ∧ entry.bitcode = bitcode ∧
      (word.getLsbD 10 = true ↔ instruction.Flagged) ∧
      (instruction.group = .soper → word.getLsbD 8 = false ∧ word.getLsbD 9 = false) ∧
      (instruction.operand.kind = .symbol ∨ instruction.operand.kind = .expression →
        instruction.equated = none → word &&& Word.addressMask = 0) := by
  have operation : ∃ operation,
      table.operation instruction.group instruction.function = .ok operation := by
    unfold encode at encoded
    split at encoded
    · cases encoded
    · rename_i operation found
      exact ⟨operation, found⟩
  obtain ⟨operation, found⟩ := operation
  obtain ⟨bitcode, known, rfl⟩ := operation_ok found
  obtain ⟨entry, member, group, same, listing⟩ := Opcodes.entry_of_bitcode known
  have listed : instruction.group ∈ Group.all := group ▸ Opcodes.groups_of_parse read entry member
  obtain ⟨first, foundFirst, sameFirst⟩ := Opcodes.withBitcode?_of_bitcode known
  have top : Bitcode.ofWord word = bitcode := (encode_bitcode lower listed listing encoded).trans same
  have digits := table.withDigits?_digits bitcode
  refine ⟨bitcode, first, known, top, ?_, digits.trans foundFirst, sameFirst,
    encode_flag lower listed encoded, fun short => ?_, fun open_ unequated => ?_⟩
  · rw [Opcodes.decode?, top, digits]
  · rw [encode, found, short] at encoded
    have bit {offset : Nat} := @encodeShort_bit instruction bitcode word lower encoded offset
    constructor
    · rw [bit (by decide) (by decide)]
      simp
    · rw [bit (by decide) (by decide)]
      simp
  · have unknown : instruction.isNumeric = false := by
      rcases open_ with kind | kind <;> rw [isNumeric, kind, unequated] <;> rfl
    rw [encode_field listed encoded, field, unknown]
    rfl

/-- A table with two functions of one bitcode. -/
def characterTable : Bytes := ascii "soper readn 10110\nSOPER READC 10110"

/-- The two functions differ in the flag bit only, and a word of the second leads to the first. -/
theorem Instruction.encode_fields_characterTable :
    ∃ table, Opcodes.parse characterTable = .ok table ∧
      (⟨.soper, ascii "READC", ⟨ascii "255", .number, 255⟩, none, 0⟩ : Instruction).encode table =
        .ok 0xB4FF ∧
      table.decode? 0xB4FF = table.withDigits? (ascii "10110") ∧
      table.withDigits? (ascii "10110") = some ⟨.soper, ascii "READN", 0b10110⟩ ∧
      Instruction.Flagged ⟨.soper, ascii "READC", ⟨ascii "255", .number, 255⟩, none, 0⟩ := by
  have read : Opcodes.parse characterTable = .ok ⟨[⟨.soper, ascii "READN", 0b10110⟩,
      ⟨.soper, ascii "READC", 0b10110⟩]⟩ := by decide +kernel
  refine ⟨_, read, by decide +kernel, ?_⟩
  obtain ⟨bitcode, entry, known, _, decoded, _, _, flag, _⟩ := Instruction.encode_fields
    characterTable _ ⟨.soper, ascii "READC", ⟨ascii "255", .number, 255⟩, none, 0⟩ 0xB4FF read
    (by decide) (by decide +kernel)
  cases known
  exact ⟨decoded, by decide +kernel, flag.1 (by decide)⟩

end WordAssembler

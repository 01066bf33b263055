import WordAssembler.Proofs.Patches

/-!
Operands that have a value when their line is read. The word of a line without a diagnostic holds the
value in its address field if it fits. A larger one is diagnosed, except for the control functions that
have no range of their own: only its low bits are left then.
-/

set_option autoImplicit false

namespace WordAssembler

/-! ### Values -/

/-- The value of an operand, its own or that of the equated symbol that it names. -/
def Operand.value? (symbols : Symbol.Table) (operand : Operand) : Option Int :=
  if operand.kind.isNumeric then some operand.value
  else if operand.kind = .symbol then
    ((symbols.get? operand.text).filter (·.usage = .equated)).map (·.value)
  else none

namespace Operand

variable {symbols later : Symbol.Table} {operand : Operand} {value : Int}

theorem value?_cases (known : operand.value? symbols = some value) :
    operand.kind.isNumeric = true ∧ operand.value = value ∨
      operand.kind = .symbol ∧ ∃ symbol, symbols.get? operand.text = some symbol ∧
        symbol.usage = .equated ∧ symbol.value = value := by
  unfold value? at known
  split at known
  · rename_i numeric
    exact Or.inl ⟨numeric, Option.some.inj known⟩
  · split at known
    · rename_i kind
      obtain ⟨symbol, found, same⟩ := Option.map_eq_some_iff.1 known
      obtain ⟨found, equated⟩ := Option.filter_eq_some_iff.1 found
      exact Or.inr ⟨kind, symbol, found, by simpa using equated, same⟩
    · cases known

theorem value?_of_symbol {symbol : Symbol} (kind : operand.kind = .symbol)
    (found : symbols.get? operand.text = some symbol) (equated : symbol.usage = .equated) :
    operand.value? symbols = some symbol.value := by
  have plain : ¬ operand.kind.isNumeric = true := by
    rw [kind]
    decide
  rw [value?, if_neg plain, if_pos kind, found]
  simp [Option.filter, equated]

/-- A value that is known stays. -/
theorem value?_mono (grown : symbols.Extends later) (known : operand.value? symbols = some value) :
    operand.value? later = some value := by
  rcases value?_cases known with ⟨numeric, same⟩ | ⟨kind, symbol, found, equated, same⟩
  · rw [value?, if_pos numeric, same]
  · obtain ⟨next, foundLater, evolves⟩ := grown operand.text symbol found
    rw [evolves.eq_of_equated equated] at foundLater
    rw [value?_of_symbol kind foundLater equated, same]

theorem value?_nonneg (values : ∀ symbol ∈ symbols.symbols, 0 ≤ symbol.value)
    (own : 0 ≤ operand.value) (known : operand.value? symbols = some value) : 0 ≤ value := by
  rcases value?_cases known with ⟨_, same⟩ | ⟨_, symbol, found, _, same⟩
  · rw [← same]
    exact own
  · rw [← same]
    exact values symbol (Symbol.Table.mem_of_get? found)

end Operand

namespace Instruction

variable {instruction : Instruction}

/-- The instruction is one of the control functions whose operand has no range. Two others have one,
two take no operand, and a jump takes no number. -/
def Unchecked (instruction : Instruction) : Prop :=
  instruction.group = .cntl ∧
    instruction.function ∉ [ascii "HALT", ascii "DUMP", ascii "CLRD", ascii "CLRT"] ∧
    (instruction.function = ascii "GOTO" → instruction.operand.kind = .symbol)

instance : DecidablePred Unchecked := fun _ => inferInstanceAs (Decidable (_ ∧ _ ∧ _))

section Large

variable (valued : instruction.operand.kind.isNumeric = true ∨ instruction.operand.kind = .symbol)
  (large : Word.lastAddress < instruction.operand.value)
include valued large

theorem controlFault?_of_large (control : instruction.group = .cntl) :
    instruction.controlFault? = none ↔ instruction.Unchecked := by
  have given : instruction.operand.kind ≠ .none := by
    intro none
    rw [none] at valued
    rcases valued with kind | kind <;> cases kind
  have closed : instruction.operand.kind ≠ .expression := by
    intro expression
    rw [expression] at valued
    rcases valued with kind | kind <;> cases kind
  unfold Word.lastAddress at large
  unfold Instruction.controlFault? Unchecked Word.lastAddress
  dsimp only
  by_cases halt : instruction.function = ascii "HALT"
  · rw [if_pos halt, if_neg (by omega)]
    simp [halt]
  · rw [if_neg halt]
    by_cases dump : instruction.function = ascii "DUMP"
    · rw [if_pos dump, if_neg (by omega)]
      simp [dump]
    · rw [if_neg dump]
      by_cases clear : instruction.function = ascii "CLRD" ∨ instruction.function = ascii "CLRT"
      · rw [if_pos clear, if_neg given]
        rcases clear with clear | clear <;> simp [clear]
      · rw [if_neg clear]
        rw [not_or] at clear
        by_cases jump : instruction.function = ascii "GOTO"
        · rw [if_pos jump]
          have unlisted : ascii "GOTO" ∉
              [ascii "HALT", ascii "DUMP", ascii "CLRD", ascii "CLRT"] := by decide
          by_cases symbol : instruction.operand.kind = .symbol
          · simp [symbol, jump, control, unlisted]
          · simp [symbol, jump, closed]
        · rw [if_neg jump]
          simp [halt, dump, clear, jump, control]

/-- A value beyond the address field is encoded just where it is not checked. -/
theorem encode_large_iff {table : Opcodes} {entry : Opcode}
    (numeric : instruction.isNumeric = true) (listed : instruction.group ∈ Group.all)
    (found : table.find? instruction.group instruction.function = some entry) :
    (∃ word, instruction.encode table = .ok word) ↔ instruction.Unchecked := by
  have beyond : ¬ instruction.operand.value ≤ Word.lastAddress := by omega
  have short : ¬ instruction.operand.value ≤ shortLargest := by
    unfold Word.lastAddress at large
    unfold shortLargest
    omega
  have elsewhere : instruction.group ≠ .cntl → ¬ instruction.Unchecked :=
    fun other unchecked => other unchecked.1
  have address : ∀ range operation,
      ¬ ∃ word, instruction.encodeAddress range operation = .ok word := by
    rintro range operation ⟨word, encoded⟩
    simp only [encodeAddress, numeric, if_neg beyond] at encoded
    split at encoded <;> cases encoded
  rw [encode, Opcodes.operation_of_find? found]
  cases group : instruction.group with
  | cntl =>
    rw [← controlFault?_of_large valued large group]
    dsimp only
    unfold encodeControl
    cases instruction.controlFault? with
    | none => simp
    | some key => simp
  | stack =>
    refine iff_of_false ?_ (elsewhere (by simp [group]))
    rintro ⟨word, encoded⟩
    simp only [encodeStack, numeric, if_neg beyond] at encoded
    split at encoded <;> cases encoded
  | jump => exact iff_of_false (address _ _) (elsewhere (by simp [group]))
  | moper => exact iff_of_false (address _ _) (elsewhere (by simp [group]))
  | soper =>
    refine iff_of_false ?_ (elsewhere (by simp [group]))
    rintro ⟨word, encoded⟩
    simp only [encodeShort, short, and_false] at encoded
    cases encoded
  | other code =>
    rw [group] at listed
    simp [Group.all] at listed

end Large

/-- The address field of an operand with a value holds its low bits. -/
theorem toNat_field (numeric : instruction.isNumeric = true) :
    (instruction.field.toNat : Int) = instruction.operand.value % (Word.lastAddress + 1) := by
  have mask : Word.addressMask.toNat = 2 ^ 10 - 1 := rfl
  rw [field, if_pos numeric, BitVec.toNat_and, mask, Nat.and_two_pow_sub_one_eq_mod, valueWord,
    Word.ofInt, BitVec.toNat_ofInt]
  unfold Word.lastAddress
  omega

end Instruction

/-! ### The first pass -/

/-- A line holds the encoding of an instruction as it is said there, with a value of its operand. -/
structure Line.Holds (assembler : Assembler) (line : Line) (instruction : Instruction) (value : Int)
    (said : Instruction) : Prop where
  statement : line.statement = some (.instruction said)
  encoded : said.encode assembler.opcodes = .ok line.word
  group : said.group = instruction.group
  function : said.function = instruction.function
  kind : said.operand.kind = instruction.operand.kind
  numeric : said.isNumeric = true
  value : said.operand.value = value

namespace Pass

variable {p : Pass} {assembler : Assembler} {instruction : Instruction} {value : Int}

/-- Substitution gives the operand its value. -/
theorem substitute_value (known : instruction.operand.value? p.symbols = some value) :
    (p.substitute instruction).isNumeric = true ∧
      (p.substitute instruction).operand.value = value := by
  unfold substitute
  rcases Operand.value?_cases known with ⟨numeric, same⟩ | ⟨kind, symbol, found, equated, same⟩
  · have other : instruction.operand.kind ≠ .symbol := by
      intro kind
      rw [kind] at numeric
      cases numeric
    rw [if_neg other, Instruction.isNumeric, numeric]
    exact ⟨rfl, same⟩
  · rw [if_pos kind, found]
    dsimp only
    rw [if_pos equated]
    exact ⟨by simp [Instruction.isNumeric], same⟩

/-- Encoding on a line without a diagnostic. -/
theorem encodeLine_of_quiet (wellFormed : instruction.operand.kind ≠ .malformed)
    (known : instruction.operand.value? p.symbols = some value)
    (quiet : (p.encodeLine assembler instruction).Quiet) :
    (p.encodeLine assembler instruction).line.Holds assembler instruction value
      (p.substitute instruction) := by
  obtain ⟨numeric, same⟩ := substitute_value known
  unfold encodeLine at quiet ⊢
  split at quiet
  · exact absurd quiet (report_not_quiet p assembler _)
  · rename_i listed
    rw [if_neg listed, if_neg wellFormed]
    dsimp only at quiet ⊢
    split at quiet
    · rename_i word encoded
      exact ⟨rfl, encoded, substitute_group p instruction, substitute_function p instruction,
        substitute_kind p instruction, numeric, same⟩
    · exact absurd quiet (report_not_quiet _ assembler _)

theorem readInstruction_of_quiet {group : Group} {rest : Bytes}
    (named : (Token.next rest).1.kind ≠ .comment)
    (known : (Operand.ofToken (Token.next (Token.next rest).2).1).value? p.symbols = some value)
    (quiet : (p.readInstruction assembler group rest).1.Quiet) :
    ∃ said, (p.readInstruction assembler group rest).1.line.Holds assembler
      ⟨group, upper (Token.next rest).1.text,
        Operand.ofToken (Token.next (Token.next rest).2).1, none, 0⟩ value said := by
  let read := (p.readOperand assembler (Token.next rest).2).2.2
  let instruction : Instruction := ⟨group, upper (Token.next rest).1.text,
    Operand.ofToken (Token.next (Token.next rest).2).1, none, 0⟩
  let labelled := (read.setStatement (.instruction instruction)).defineOwnLabel assembler
  have whole : (p.readInstruction assembler group rest).1 =
      labelled.allocate assembler fun q => q.encodeLine assembler instruction := by
    simp only [readInstruction, readFunction, if_neg named]
    rfl
  obtain ⟨added, remarks, _⟩ := readOperand_remarks p assembler (Token.next rest).2
  -- The label of the line is defined before its operand is looked up.
  have grown : p.symbols.Extends labelled.symbols := by
    have labels : Labels (read.setStatement (.instruction instruction)) labelled :=
      defineOwnLabel_labels _ assembler
    have step := labels.symbols.extends
    rwa [show (read.setStatement (.instruction instruction)).symbols = p.symbols from
      remarks.symbols] at step
  have wellFormed : instruction.operand.kind ≠ .malformed := by
    intro malformed
    rcases Operand.value?_cases known with ⟨numeric, _⟩ | ⟨symbol, _⟩
    · rw [show (Operand.ofToken (Token.next (Token.next rest).2).1).kind = .malformed from
        malformed] at numeric
      cases numeric
    · exact absurd (symbol.symm.trans malformed) (by decide)
  rw [whole] at quiet ⊢
  unfold allocate at quiet ⊢
  split at quiet
  · exact absurd quiet (report_not_quiet labelled assembler _)
  · rename_i room
    rw [if_neg room]
    exact ⟨_, encodeLine_of_quiet wellFormed (Operand.value?_mono grown known) quiet⟩

/-- A line without a diagnostic that says an instruction holds its encoding, with the value that the
operand has where the line is read. -/
theorem readLine_of_quiet {entry : Opcode} (fresh : p.Fresh)
    (written : assembler.written? p.line.source = some (instruction, entry))
    (known : instruction.operand.value? p.symbols = some value)
    (quiet : (p.readLine assembler).Quiet) :
    ∃ said, (p.readLine assembler).line.Holds assembler instruction value said := by
  obtain ⟨group, command, named, found, rfl⟩ := Assembler.written?_eq_some written
  have nonblank := Assembler.isBlank_of_group command
  have read : p.readLine assembler = p.readCommand assembler := by
    unfold readLine at quiet ⊢
    split at quiet
    · exact absurd quiet (report_not_quiet p assembler _)
    · rename_i first
      rw [if_neg first]
      split at quiet
      · exact absurd quiet (report_not_quiet p assembler _)
      · rename_i open_
        have unended : p.context.ended = false := by simpa [nonblank] using open_
        simp [unended, nonblank]
  rw [read, readCommand_group rfl command] at quiet ⊢
  obtain ⟨_, _, _, symbols, _⟩ := readLabel_settles p assembler
    (assembler.columns p.line.source).label fresh.unnamed fresh.unstated
  rw [← symbols] at known
  have held := @readInstruction_of_quiet
    (p.readLabel assembler (assembler.columns p.line.source).label) assembler value group
    (assembler.columns p.line.source).rest named known
  generalize (p.readLabel assembler (assembler.columns p.line.source).label).readInstruction
    assembler group (assembler.columns p.line.source).rest = result at quiet held ⊢
  obtain ⟨said, holds⟩ := held ((finishLine_follows result.1 assembler result.2).quiet quiet)
  have clean : (result.1.finishLine assembler result.2).line.has .serious = false := by
    rw [Line.has, quiet, List.any_nil]
  obtain ⟨statement, word, _⟩ := finishLine_of_clean result.1 assembler clean
  exact ⟨said, statement.trans holds.statement, holds.encoded.trans (congrArg _ word.symm),
    holds.group, holds.function, holds.kind, holds.numeric, holds.value⟩

end Pass

/-! ### Programs -/

namespace Reading

variable {assembler : Assembler} {reading : Reading} {k : Nat} {line : Line}

/-- A diagnostic at the end of a source is put on the last line. -/
theorem line_of_reportLast {key : Key}
    (found : (reading.reportLast assembler key).lines.reverse[k]? = some line)
    (quiet : line.diagnostics = []) : reading.lines.reverse[k]? = some line := by
  have reported : ∀ last : Line, line ≠ ((reading.pass last).report assembler key).line := by
    intro last same
    rw [same] at quiet
    exact Pass.report_not_quiet _ assembler key quiet
  unfold reportLast at found
  split at found
  · rename_i last earlier lines
    rw [afterPass, List.reverse_cons, List.getElem?_append] at found
    rw [lines, List.reverse_cons, List.getElem?_append]
    split at found
    · rename_i inside
      rw [if_pos inside]
      exact found
    · have member := List.mem_singleton.1 (List.mem_of_getElem? found)
      exact absurd member (reported last)
  · have member := List.mem_singleton.1 (List.mem_of_getElem? found)
    exact absurd member (reported _)

theorem line_of_finish (found : (reading.finish assembler).lines.reverse[k]? = some line)
    (quiet : line.diagnostics = []) : reading.lines.reverse[k]? = some line := by
  unfold finish at found
  split at found
  · exact found
  · split at found
    · exact line_of_reportLast found quiet
    · split at found
      · exact found
      · exact line_of_reportLast found quiet

end Reading

namespace Assembler

/-- A line without a diagnostic is as it was read. -/
theorem line_of_parse {assembler : Assembler} {text : Bytes} {k : Nat} {line : Line}
    (found : (assembler.parse text).program.lines[k]? = some line)
    (quiet : line.diagnostics = []) :
    (Reading.ofLines assembler (Lines.read text).lines).lines.reverse[k]? = some line := by
  unfold parse at found
  dsimp only at found
  split at found
  · exact found
  · exact Reading.line_of_finish found quiet

/-- What a written instruction says: a function of the table, and an operand that is not negative. -/
theorem listed_of_written? {assembler : Assembler} {source : Bytes} {instruction : Instruction}
    {entry : Opcode} (written : assembler.written? source = some (instruction, entry)) :
    instruction.group ∈ Group.all ∧ 0 ≤ instruction.operand.value ∧
      assembler.opcodes.find? instruction.group instruction.function = some entry := by
  obtain ⟨group, command, _, found, rfl⟩ := written?_eq_some written
  exact ⟨(group_of_command? command).2, Operand.ofToken_next_nonneg _,
    (Opcodes.find?_upper _ _ _).trans found⟩

end Assembler

namespace Line.Holds

variable {assembler : Assembler} {line : Line} {instruction said : Instruction} {value : Int}
  (holds : line.Holds assembler instruction value said)
include holds

/-- The address field holds the low bits of the value. -/
theorem toNat_word (listed : instruction.group ∈ Group.all) :
    ((line.word &&& Word.addressMask).toNat : Int) = value % (Word.lastAddress + 1) := by
  rw [Instruction.encode_field (holds.group ▸ listed) holds.encoded,
    Instruction.toNat_field holds.numeric, holds.value]

/-- A value beyond the address field is that of an instruction that is not checked. -/
theorem unchecked {entry : Opcode} (listed : instruction.group ∈ Group.all)
    (found : assembler.opcodes.find? instruction.group instruction.function = some entry)
    (valued : instruction.operand.kind.isNumeric = true ∨ instruction.operand.kind = .symbol)
    (large : Word.lastAddress < value) : instruction.Unchecked := by
  rw [← holds.group, ← holds.function] at found
  have encoded : said.Unchecked :=
    (Instruction.encode_large_iff (holds.kind ▸ valued) (holds.value ▸ large) holds.numeric
      (holds.group ▸ listed) found).1 ⟨line.word, holds.encoded⟩
  rw [Instruction.Unchecked, ← holds.group, ← holds.function, ← holds.kind]
  exact encoded

end Line.Holds

/-- A line without a diagnostic whose instruction has an operand with a value holds the value in its
address field, as far as it fits: only the control functions without a range leave low bits of a
larger one. -/
theorem Assembler.quiet_operand_masked (assembler : Assembler) (text : Bytes) (k : Nat)
    (source : Bytes) (instruction : Instruction) (entry : Opcode) (value : Int) (line : Line)
    (here : (Lines.read text).lines[k]? = some source)
    (written : assembler.written? (dropTrailing Lines.isCarriageReturn source) =
      some (instruction, entry))
    (known : instruction.operand.value?
      (Reading.ofLines assembler ((Lines.read text).lines.take k)).symbols = some value)
    (read : (assembler.parse text).program.lines[k]? = some line)
    (quiet : line.diagnostics = []) :
    (∃ said, line.Holds assembler instruction value said) ∧
      ((line.word &&& Word.addressMask).toNat : Int) = value % (Word.lastAddress + 1) ∧
      (((line.word &&& Word.addressMask).toNat : Int) = value ↔ value ≤ Word.lastAddress) ∧
      (Word.lastAddress < value → instruction.Unchecked) := by
  have bounded := Reading.ofLines_bounded assembler ((Lines.read text).lines.take k)
  obtain ⟨same, found, _, rfl⟩ := Reading.stepped_of_line (line_of_parse read quiet)
  rw [here] at found
  cases found
  obtain ⟨said, holds⟩ := Pass.readLine_of_quiet (Reading.fresh_isFresh _ (source, k + 1)) written
    known quiet
  obtain ⟨listed, own, entered⟩ := listed_of_written? written
  have lower := Operand.value?_nonneg bounded.values own known
  have valued : instruction.operand.kind.isNumeric = true ∨ instruction.operand.kind = .symbol := by
    rcases Operand.value?_cases known with ⟨numeric, _⟩ | ⟨symbol, _⟩
    · exact Or.inl numeric
    · exact Or.inr symbol
  have low := holds.toNat_word listed
  refine ⟨⟨said, holds⟩, low, ?_, holds.unchecked listed entered valued⟩
  rw [Reading.stepped, low]
  unfold Word.lastAddress
  omega

/-- A table with a control function that has no range. -/
def waitTable : Bytes := ascii "CNTL WAIT 01101"

def waitAssembler : Assembler where
  opcodes := ⟨[⟨.cntl, ascii "WAIT", 0b01101⟩]⟩

theorem parse_waitTable : Opcodes.parse waitTable = .ok waitAssembler.opcodes := by decide +kernel

/-- A source in which the function has an equated operand, and one that is too large. -/
def waitSource : Bytes :=
  ascii "PROG START 0\nFIVE EQU 5\n CNTL WAIT,FIVE\n CNTL WAIT,2000\n END PROG"

/-- Neither line is diagnosed; the first has its operand, and the second low bits of it. -/
theorem Assembler.quiet_operand_masked_waitSource :
    (∃ line, (waitAssembler.parse waitSource).program.lines[2]? = some line ∧
      line.diagnostics = [] ∧ ((line.word &&& Word.addressMask).toNat : Int) = 5) ∧
    ∃ line, (waitAssembler.parse waitSource).program.lines[3]? = some line ∧
      line.diagnostics = [] ∧ ((line.word &&& Word.addressMask).toNat : Int) = 976 := by
  have quietFive : (waitAssembler.parse waitSource).program.lines[2]?.map (·.diagnostics) =
      some [] := by decide +kernel
  have quietLarge : (waitAssembler.parse waitSource).program.lines[3]?.map (·.diagnostics) =
      some [] := by decide +kernel
  obtain ⟨five, readFive, quietFive⟩ := Option.map_eq_some_iff.1 quietFive
  obtain ⟨large, readLarge, quietLarge⟩ := Option.map_eq_some_iff.1 quietLarge
  obtain ⟨_, _, fits, _⟩ := Assembler.quiet_operand_masked waitAssembler waitSource 2
    (ascii " CNTL WAIT,FIVE") ⟨.cntl, ascii "WAIT", ⟨ascii "FIVE", .symbol, 0⟩, none, 0⟩
    ⟨.cntl, ascii "WAIT", 0b01101⟩ 5 five (by decide +kernel) (by decide +kernel)
    (by decide +kernel) readFive quietFive
  obtain ⟨_, low, _, _⟩ := Assembler.quiet_operand_masked waitAssembler waitSource 3
    (ascii " CNTL WAIT,2000") ⟨.cntl, ascii "WAIT", ⟨ascii "2000", .number, 2000⟩, none, 0⟩
    ⟨.cntl, ascii "WAIT", 0b01101⟩ 2000 large (by decide +kernel) (by decide +kernel)
    (by decide +kernel) readLarge quietLarge
  exact ⟨⟨five, readFive, quietFive, fits.2 (by decide)⟩, ⟨large, readLarge, quietLarge, low⟩⟩

/-- A value may be cut without a diagnostic. -/
theorem Assembler.quiet_operand_not_kept : ¬ ∀ (table : Bytes) (assembler : Assembler),
    Opcodes.parse table = .ok assembler.opcodes →
    ∀ (text : Bytes) (k : Nat) (source : Bytes) (instruction : Instruction) (entry : Opcode)
      (value : Int) (line : Line), (Lines.read text).lines[k]? = some source →
    assembler.written? (dropTrailing Lines.isCarriageReturn source) = some (instruction, entry) →
    instruction.operand.value?
      (Reading.ofLines assembler ((Lines.read text).lines.take k)).symbols = some value →
    (assembler.parse text).program.lines[k]? = some line → line.diagnostics = [] →
    ((line.word &&& Word.addressMask).toNat : Int) = value := by
  intro kept
  have quiet : (waitAssembler.parse waitSource).program.lines[3]?.map
      (fun line => (line.diagnostics, line.word)) = some ([], 0x6BD0) := by decide +kernel
  obtain ⟨line, read, same⟩ := Option.map_eq_some_iff.1 quiet
  obtain ⟨quiet, word⟩ := Prod.mk.inj same
  have value := kept waitTable waitAssembler parse_waitTable waitSource 3 (ascii " CNTL WAIT,2000")
    ⟨.cntl, ascii "WAIT", ⟨ascii "2000", .number, 2000⟩, none, 0⟩ ⟨.cntl, ascii "WAIT", 0b01101⟩
    2000 line (by decide +kernel) (by decide +kernel) (by decide +kernel) read quiet
  rw [word] at value
  revert value
  decide

end WordAssembler

import WordAssembler.Proofs.EncodedWords
import WordAssembler.Proofs.Linking
import WordAssembler.Proofs.MovedWords
import WordAssembler.Proofs.Neutral
import WordAssembler.Proofs.Symbols
import WordAssembler.Proofs.Written

/-!
The words of instructions after the second pass. An encoded word has the value of its operand in the
address field, or nothing; the second pass puts the address of a label or expression there. The bits
above are those of the encoding, except that the address just past the end of memory, which a label
on a line without a word may have, does not fit into the field and sets the flag bit.
-/

set_option autoImplicit false

namespace WordAssembler

open Expression

/-! ### The address field -/

namespace Word

/-- The field of a word with an address is that of the address. -/
theorem field_withAddress (word : Word) (address : Int) :
    word.withAddress address &&& addressMask = Word.ofInt address &&& addressMask := by
  have cleared : word &&& ~~~addressMask &&& addressMask = 0 := by
    rw [BitVec.and_assoc, BitVec.not_and_self]
    exact BitVec.and_zero
  rw [withAddress, or_and_mask, cleared]
  exact BitVec.zero_or

/-- The address past the end of memory sets the bit above the field. -/
theorem withAddress_past (word : Word) :
    word.withAddress (lastAddress + 1) >>> 10 = (word >>> 10) ||| 1 := by
  have past : Word.ofInt (lastAddress + 1) >>> 10 = 1 := rfl
  have above : ((word &&& ~~~addressMask) >>> 10 : Word) = word >>> 10 := by
    apply BitVec.eq_of_getLsbD_eq
    intro offset _
    rw [BitVec.getLsbD_ushiftRight, BitVec.getLsbD_ushiftRight, BitVec.getLsbD_and,
      BitVec.getLsbD_not]
    by_cases inside : 10 + offset < 16
    · rw [getLsbD_addressMask inside]
      simp [inside]
    · simp [BitVec.getLsbD_of_ge word (10 + offset) (by omega)]
  rw [withAddress, BitVec.ushiftRight_or_distrib, above, past]

end Word

/-! ### The first pass -/

/-- The equated symbol of an instruction is its operand, and gave it its value. -/
def Instruction.Substituted (symbols : Symbol.Table) (said : Instruction) : Prop :=
  ∀ label, said.equated = some label → said.operand.kind = .symbol ∧ said.operand.text = label ∧
    ∃ symbol, symbols.get? label = some symbol ∧ symbol.usage = .equated ∧
      symbol.value = said.operand.value ∧ symbol.relocations = said.relocations

theorem Instruction.Substituted.mono {before after : Symbol.Table} {said : Instruction}
    (substituted : said.Substituted before) (grown : before.Extends after) :
    said.Substituted after := by
  intro label named
  obtain ⟨kind, text, symbol, found, equated, values⟩ := substituted label named
  obtain ⟨later, known, evolves⟩ := grown label symbol found
  rw [evolves.eq_of_equated equated] at known
  exact ⟨kind, text, symbol, known, equated, values⟩

/-- What the first pass leaves of an instruction on a line with a word. -/
structure Line.Encodes (assembler : Assembler) (symbols : Symbol.Table) (line : Line)
    (said : Instruction) : Prop where
  place : isAddress line.location = true
  group : said.group ∈ Group.all
  word : said.encode assembler.opcodes = .ok line.word
  substituted : said.Substituted symbols

namespace Pass

variable {p : Pass} {assembler : Assembler} {instruction said : Instruction}

theorem substitute_substituted (plain : instruction.equated = none) :
    (p.substitute instruction).Substituted p.symbols := by
  intro label named
  unfold substitute at named ⊢
  split at named
  · rename_i kind
    rw [if_pos kind]
    split at named
    · rename_i symbol found
      split at named
      · rename_i usage
        cases named
        simp only [usage, ↓reduceIte]
        have same := Symbol.Table.label_of_get? found
        exact ⟨kind, same.symm, symbol, same ▸ found, usage, rfl, rfl⟩
      · rw [plain] at named
        cases named
    · rw [plain] at named
      cases named
  · rw [plain] at named
    cases named

/-- An instruction that is left on its line was encoded. -/
theorem encodeLine_encoded
    (stated : (p.encodeLine assembler instruction).line.statement = some (.instruction said)) :
    said = p.substitute instruction ∧
      said.encode assembler.opcodes = .ok (p.encodeLine assembler instruction).line.word := by
  unfold encodeLine at stated ⊢
  split at stated
  · cases stated
  · rename_i known
    rw [if_neg known]
    split at stated
    · cases stated
    · rename_i wellFormed
      rw [if_neg wellFormed]
      dsimp only at stated ⊢
      split at stated
      · rename_i word encoded
        cases stated
        refine ⟨rfl, ?_⟩
        rw [encoded]
        rfl
      · cases stated

theorem readFunction_plain (p : Pass) (assembler : Assembler) (group : Group) (rest : Bytes) :
    (p.readFunction assembler group rest).1.group = group ∧
      (p.readFunction assembler group rest).1.equated = none := by
  unfold readFunction
  dsimp only
  split <;> exact ⟨rfl, rfl⟩

/-- An instruction that is left on a line with a word was encoded into it. -/
theorem readInstruction_encoded {group : Group} {rest : Bytes}
    (unaddressed : p.line.addressed = false)
    (addressed : (p.readInstruction assembler group rest).1.line.addressed = true)
    (stated : (p.readInstruction assembler group rest).1.line.statement =
      some (.instruction said)) :
    said.group = group ∧
      said.encode assembler.opcodes =
        .ok (p.readInstruction assembler group rest).1.line.word ∧
      said.Substituted (p.readInstruction assembler group rest).1.symbols := by
  obtain ⟨added, remarks⟩ := readFunction_remarks p assembler group rest
  obtain ⟨sameGroup, plain⟩ := readFunction_plain p assembler group rest
  let written := (p.readFunction assembler group rest).1
  let labelled := ((p.readFunction assembler group rest).2.2.setStatement
    (.instruction written)).defineOwnLabel assembler
  have whole : (p.readInstruction assembler group rest).1 =
      labelled.allocate assembler fun q => q.encodeLine assembler written := rfl
  rw [whole] at addressed stated ⊢
  have before : labelled.line.addressed = false :=
    (defineOwnLabel_labels _ assembler).addressed.trans
      (remarks.settles.addressed.trans unaddressed)
  rw [allocate_of_addressed before addressed] at stated ⊢
  obtain ⟨rfl, encoded⟩ := encodeLine_encoded stated
  refine ⟨(substitute_group _ _).trans sameGroup, encoded, ?_⟩
  rw [(encodeLine_settles labelled.occupy assembler written).symbols]
  exact substitute_substituted plain

/-- An instruction that is left at the end of a line was there before, with the same word. -/
theorem instruction_of_finishLine {rest : Bytes}
    (stated : (p.finishLine assembler rest).line.statement = some (.instruction said)) :
    p.line.statement = some (.instruction said) ∧
      (p.finishLine assembler rest).line.word = p.line.word := by
  obtain ⟨added, remarks, _⟩ := readTrailing_remarks p assembler rest
  obtain ⟨comment, line⟩ := remarks.line
  unfold finishLine at stated ⊢
  dsimp only at stated ⊢
  split at stated
  · rename_i halted
    rw [if_pos halted]
    exact ⟨stated, rfl⟩
  · rename_i running
    rw [if_neg running]
    split at stated
    · cases stated
    · rename_i kept
      rw [if_neg kept, line]
      rw [line] at stated
      exact ⟨stated, rfl⟩

theorem Advance.place {q : Pass} (advance : Advance p q) (lower : 0 ≤ p.context.location)
    (addressed : q.line.addressed = true) : isAddress q.line.location = true := by
  cases advance with
  | word _ room _ _ place =>
    rw [place, isAddress_iff]
    exact ⟨lower, room⟩
  | rest _ _ unaddressed =>
    rw [unaddressed] at addressed
    cases addressed
  | skip _ _ _ _ _ unaddressed =>
    rw [unaddressed] at addressed
    cases addressed
  | begin _ _ _ _ _ _ _ _ _ unaddressed =>
    rw [unaddressed] at addressed
    cases addressed

/-- A line with a word that says an instruction holds its encoding. -/
theorem readLine_encodes (fresh : p.Fresh) (lower : 0 ≤ p.context.location)
    (addressed : (p.readLine assembler).line.addressed = true)
    (stated : (p.readLine assembler).line.statement = some (.instruction said)) :
    (p.readLine assembler).line.Encodes assembler (p.readLine assembler).symbols said := by
  have place := (readLine_advance p assembler fresh).place lower addressed
  have silent : ∀ q : Pass, Stays p q → q.line.statement ≠ some (.instruction said) := by
    intro q stays said
    rw [stays.statement, fresh.unstated] at said
    cases said
  rcases readLine_cases p assembler with ⟨key, _, refused⟩ | blank | ⟨_, _, command⟩
  · rw [refused] at stated
    exact absurd stated (silent _ (report_stays p assembler key))
  · rw [blank] at stated
    exact absurd stated (silent _ (setComment_remarks p _).stays)
  · rw [command] at place addressed stated ⊢
    cases found : assembler.command? (assembler.columns p.line.source).command with
    | none =>
      rw [readCommand_unknown rfl found] at stated
      exact absurd stated
        (silent _ ((readLabel_stays p assembler _).trans (readUnknown_stays _ assembler _)))
    | some command =>
      cases command with
      | directive directive =>
        rw [readCommand_directive rfl found] at stated
        obtain ⟨valued, other⟩ := readDirective_statement
          (p.readLabel assembler (assembler.columns p.line.source).label) assembler directive
          (assembler.columns p.line.source).rest
        rw [(instruction_of_finishLine stated).1] at other
        cases other
      | group group =>
        rw [readCommand_group rfl found] at place addressed stated ⊢
        obtain ⟨earlier, word⟩ := instruction_of_finishLine stated
        have settles := finishLine_settles
          ((p.readLabel assembler (assembler.columns p.line.source).label).readInstruction assembler
            group (assembler.columns p.line.source).rest).1 assembler
          ((p.readLabel assembler (assembler.columns p.line.source).label).readInstruction assembler
            group (assembler.columns p.line.source).rest).2
        obtain ⟨_, _, _, _, labelled, _⟩ := readLabel_settles p assembler
          (assembler.columns p.line.source).label fresh.unnamed fresh.unstated
        obtain ⟨same, encoded, substituted⟩ := readInstruction_encoded
          (labelled.trans fresh.unaddressed) (settles.addressed.symm.trans addressed) earlier
        refine ⟨place, ?_, ?_, ?_⟩
        · rw [same]
          exact (Assembler.group_of_command? found).2
        · rw [word]
          exact encoded
        · rw [settles.symbols]
          exact substituted

end Pass

namespace Reading

variable {assembler : Assembler}

/-- The addresses of the symbols are in memory or just past it. -/
def Within (symbols : Symbol.Table) : Prop :=
  ∀ symbol ∈ symbols.symbols, symbol.usage ≠ .equated →
    ∀ address, symbol.location = some address → 0 ≤ address ∧ address ≤ Word.lastAddress + 1

theorem Within.advance {p q : Pass} (within : Within p.symbols)
    (bounded : Bounded p.context p.symbols) (advance : p.Advance q) : Within q.symbols := by
  have lower := bounded.lower
  have upper := bounded.upper
  cases advance with
  | rest _ _ _ _ symbols => exact addresses_inside symbols lower upper within
  | word _ _ _ _ _ _ symbols => exact addresses_inside symbols lower upper within
  | skip address _ forward room _ _ _ symbols =>
    exact addresses_inside symbols (by omega) (by omega) within
  | begin name load _ _ _ _ _ below above _ _ symbols =>
    intro symbol member usage address located
    rw [symbols, Symbol.Table.extend] at member
    split at member
    · exact within symbol member usage address located
    · rcases Symbol.Table.mem_insert member with rfl | old
      · rw [← Option.some.inj located]
        exact ⟨below, by omega⟩
      · exact within symbol old usage address located

theorem ofLines_within (sources : List Bytes) : Within (ofLines assembler sources).symbols := by
  induction sources using List.reverseRecOn with
  | nil => exact nofun
  | append_singleton sources source ih =>
    rw [ofLines_concat]
    cases halted : (ofLines assembler sources).fatal.isSome with
    | true =>
      rw [add_of_halted assembler halted]
      exact ih
    | false =>
      rw [add_symbols (by simpa using halted)]
      exact Within.advance (p := (ofLines assembler sources).fresh _) ih
        (ofLines_bounded assembler sources)
        (Pass.readLine_advance _ assembler (fresh_isFresh _ _))

/-- Every line with a word that says an instruction holds its encoding. -/
theorem ofLines_encodes (sources : List Bytes) : ∀ line ∈ (ofLines assembler sources).lines,
    line.addressed = true → ∀ said, line.statement = some (.instruction said) →
      line.Encodes assembler (ofLines assembler sources).symbols said := by
  induction sources using List.reverseRecOn with
  | nil =>
    intro line member
    cases member
  | append_singleton sources source ih =>
    have grown : (ofLines assembler sources).symbols.Extends
        (add assembler (ofLines assembler sources) (source, sources.length + 1)).symbols :=
      add_extends _ _
    rw [ofLines_concat]
    cases halted : (ofLines assembler sources).fatal.isSome with
    | true =>
      rw [add_of_halted assembler halted]
      exact ih
    | false =>
      have running : (ofLines assembler sources).fatal = none := by simpa using halted
      rw [add_symbols running] at grown
      rw [add_lines running, add_symbols running]
      intro line member addressed said stated
      rcases List.mem_cons.1 member with rfl | earlier
      · exact Pass.readLine_encodes (fresh_isFresh _ _) (ofLines_bounded assembler sources).lower
          addressed stated
      · have encodes := ih line earlier addressed said stated
        exact ⟨encodes.place, encodes.group, encodes.word, encodes.substituted.mono grown⟩

theorem Closed.encodes {reading : Reading} {program : Program}
    (closed : reading.Closed assembler program)
    (encodes : ∀ line ∈ reading.lines, line.addressed = true → ∀ said,
      line.statement = some (.instruction said) → line.Encodes assembler reading.symbols said) :
    ∀ line ∈ program.lines, line.addressed = true → ∀ said,
      line.statement = some (.instruction said) → line.Encodes assembler program.symbols said := by
  rw [closed.symbols]
  cases closed with
  | ended same =>
    rw [same]
    intro line member
    exact encodes line (List.mem_reverse.1 member)
  | unended last earlier lines same =>
    rw [lines] at encodes
    rw [same]
    intro line member addressed said stated
    rcases List.mem_cons.1 (List.mem_reverse.1 member) with rfl | before
    · obtain ⟨place, group, word, substituted⟩ :=
        encodes last List.mem_cons_self addressed said stated
      exact ⟨place, group, word, substituted⟩
    · exact encodes line (List.mem_cons_of_mem _ before) addressed said stated

end Reading

/-! ### The second pass -/

/-- The address that a symbol stands for as the operand of an instruction; that of an external
symbol is left to the linker. -/
def Symbol.target (symbol : Symbol) : Int :=
  match symbol.usage with
  | .equated => symbol.value
  | .external => 0
  | _ => symbol.location.getD 0

namespace Scope

variable (scope : Scope)

/-- The address that the operand of an instruction at a location stands for, 0 for none. -/
def operandAddress (location : Int) (said : Instruction) : Int :=
  match said.operand.kind with
  | .symbol => ((scope.evaluator.symbols.get? said.operand.text).map Symbol.target).getD 0
  | .expression =>
    match scope.evaluator.operand said.operand.text location with
    | .ok (value, _) => value
    | .error _ => 0
  | kind => if kind.isNumeric then said.operand.value else 0

/-- The operand is a label just past the end of memory. -/
def pointsPast (said : Instruction) : Bool :=
  said.equated.isNone && said.operand.kind == .symbol &&
    (scope.evaluator.symbols.get? said.operand.text).any fun symbol =>
      symbol.usage != .equated && symbol.target == Word.lastAddress + 1

/-- A word has an address in its field, and above it the bits of another word; an address just past
the end of memory sets the lowest of them. -/
structure Patched (word : Word) (address : Int) (past : Bool) (after : Word) : Prop where
  field : after &&& Word.addressMask = Word.ofInt address &&& Word.addressMask
  above : past = false → after >>> 10 = word >>> 10
  flag : past = true → after >>> 10 = (word >>> 10) ||| 1

theorem patched_self {word : Word} {address : Int}
    (field : word &&& Word.addressMask = Word.ofInt address &&& Word.addressMask) :
    Patched word address false word :=
  ⟨field, fun _ => rfl, nofun⟩

theorem patched_withAddress (word : Word) {address : Int} (inside : isAddress address = true) :
    Patched word address false (word.withAddress address) := by
  obtain ⟨lower, upper⟩ := isAddress_iff.1 inside
  exact ⟨word.field_withAddress address, fun _ => word.withAddress_shift lower upper, nofun⟩

theorem patched_past (word : Word) : Patched word (Word.lastAddress + 1) true
    (word.withAddress (Word.lastAddress + 1)) :=
  ⟨word.field_withAddress _, nofun, fun _ => word.withAddress_past⟩

variable {scope}

theorem resolveEquated_word? (word : Word) (relocations : Int) :
    (scope.resolveEquated word relocations).word? = some word := by
  unfold resolveEquated
  repeat' split
  all_goals rfl

/-- A label is put into an empty address field. -/
theorem resolveSymbol_patched {word after : Word} {label : Bytes}
    (within : Reading.Within scope.evaluator.symbols) (empty : word &&& Word.addressMask = 0)
    (resolved : (scope.resolveSymbol word label).word? = some after) :
    ∃ symbol, scope.evaluator.symbols.get? label = some symbol ∧
      Patched word symbol.target
        (symbol.usage != .equated && symbol.target == Word.lastAddress + 1) after := by
  unfold resolveSymbol at resolved
  split at resolved
  · cases resolved
  · rename_i symbol found
    refine ⟨symbol, found, ?_⟩
    split at resolved
    · rename_i external
      cases resolved
      have zero : symbol.target = 0 := by simp [Symbol.target, external]
      rw [zero, external]
      exact patched_self (empty.trans rfl)
    · cases resolved
    · rename_i external equated
      split at resolved
      · rename_i place located
        cases resolved
        have target : symbol.target = place := by
          unfold Symbol.target
          split
          · contradiction
          · contradiction
          · rw [located, Option.getD_some]
        have other : (symbol.usage != .equated) = true := bne_iff_ne.2 equated
        obtain ⟨lower, upper⟩ := within symbol (Symbol.Table.mem_of_get? found) equated place
          located
        rw [target, other, Bool.true_and]
        by_cases last : place = Word.lastAddress + 1
        · subst last
          rw [BEq.rfl]
          exact patched_past word
        · have inside : isAddress place = true := isAddress_iff.2 ⟨lower, by omega⟩
          rw [beq_false_of_ne last]
          exact patched_withAddress word inside
      · cases resolved

/-- The value of an expression is put into the address field. -/
theorem resolveExpression_patched {word after : Word} {location : Int} {expression : Bytes}
    (inside : isAddress location = true)
    (resolved : (scope.resolveExpression word location expression).word? = some after) :
    ∃ value adjustments, scope.evaluator.operand expression location = .ok (value, adjustments) ∧
      Patched word value false after := by
  unfold resolveExpression at resolved
  split at resolved
  · cases resolved
  · rename_i value adjustments found
    refine ⟨value, adjustments, found, ?_⟩
    split at resolved
    · cases resolved
      exact patched_withAddress word (Evaluator.operand_isAddress inside found)
    · cases resolved

/-- The word of an instruction gets the address of its operand. -/
theorem resolveInstruction_patched {assembler : Assembler} {line : Line} {said : Instruction}
    {after : Word} (encodes : line.Encodes assembler scope.evaluator.symbols said)
    (within : Reading.Within scope.evaluator.symbols)
    (resolved : (scope.resolveInstruction line.word line.location said).word? = some after) :
    Patched line.word (scope.operandAddress line.location said) (scope.pointsPast said) after := by
  have field := Instruction.encode_field encodes.group encodes.word
  unfold resolveInstruction at resolved
  cases named : said.equated with
  | some label =>
    obtain ⟨kind, text, symbol, found, usage, value, _⟩ := encodes.substituted label named
    have past : scope.pointsPast said = false := by simp [pointsPast, named]
    have address : scope.operandAddress line.location said = said.operand.value := by
      simp [operandAddress, kind, text, found, Symbol.target, usage, value]
    rw [named, Option.isSome_some, if_pos rfl, resolveEquated_word?] at resolved
    cases resolved
    rw [past, address]
    refine patched_self ?_
    rw [field, Instruction.field, if_pos (by simp [Instruction.isNumeric, named])]
    rfl
  | none =>
    rw [named, Option.isSome_none, if_neg Bool.false_ne_true] at resolved
    -- A label or an expression has left the field empty; any other operand has filled it.
    cases kind : said.operand.kind with
    | symbol =>
      have empty : line.word &&& Word.addressMask = 0 := by
        rw [field, Instruction.field, if_neg]
        simp [Instruction.isNumeric, named, kind, Operand.Kind.isNumeric, Operand.Kind.isLiteral]
      rw [kind] at resolved
      obtain ⟨symbol, found, patched⟩ := resolveSymbol_patched within empty resolved
      have address : scope.operandAddress line.location said = symbol.target := by
        simp [operandAddress, kind, found]
      have past : scope.pointsPast said =
          (symbol.usage != .equated && symbol.target == Word.lastAddress + 1) := by
        simp [pointsPast, named, kind, found]
      rw [address, past]
      exact patched
    | expression =>
      rw [kind] at resolved
      obtain ⟨value, adjustments, found, patched⟩ :=
        resolveExpression_patched encodes.place resolved
      have address : scope.operandAddress line.location said = value := by
        simp [operandAddress, kind, found]
      have past : scope.pointsPast said = false := by simp [pointsPast, kind]
      rw [address, past]
      exact patched
    | _ =>
      have past : scope.pointsPast said = false := by simp [pointsPast, kind]
      have same : after = line.word := by
        rw [kind] at resolved
        exact (Option.some.inj resolved).symm
      rw [past, same]
      refine patched_self ?_
      rw [field]
      simp [Instruction.field, Instruction.isNumeric, Instruction.valueWord, operandAddress, named,
        kind, Operand.Kind.isNumeric, Operand.Kind.isLiteral, Word.ofInt]

/-- An instruction that is left on a line with a word was resolved into it. -/
theorem resolved_of_lineAfter {assembler : Assembler} {line : Line} {said : Instruction}
    (addressed : line.addressed = true)
    (stated : (scope.lineAfter assembler line).statement = some (.instruction said)) :
    line.statement = some (.instruction said) ∧
      (scope.resolveInstruction line.word line.location said).word? =
        some (scope.lineAfter assembler line).word := by
  rw [lineAfter, if_pos addressed] at stated ⊢
  have unchanged : line.statement = some (.instruction said) := by
    cases resolved : scope.resolution line with
    | settled word flag =>
      rw [resolved] at stated
      exact stated
    | adjusted word adjustments =>
      rw [resolved] at stated
      exact stated
    | faulty key =>
      rw [resolved] at stated
      cases stated
  have resolution : scope.resolution line =
      scope.resolveInstruction line.word line.location said := by
    rw [Scope.resolution, unchanged]
  refine ⟨unchanged, ?_⟩
  rw [← resolution]
  cases resolved : scope.resolution line with
  | settled word flag => rfl
  | adjusted word adjustments => rfl
  | faulty key =>
    rw [resolved] at stated
    cases stated

/-- A symbol just past the end of memory is not equated. -/
theorem symbol_of_pointsPast {said : Instruction} (past : scope.pointsPast said = true) :
    ∃ symbol ∈ scope.evaluator.symbols.symbols, symbol.usage ≠ .equated ∧
      symbol.location = some (Word.lastAddress + 1) := by
  simp only [pointsPast, Bool.and_eq_true, Option.any_eq_true, bne_iff_ne, beq_iff_eq] at past
  obtain ⟨_, symbol, found, usage, target⟩ := past
  refine ⟨symbol, Symbol.Table.mem_of_get? found, usage, ?_⟩
  unfold Symbol.target at target
  split at target
  · contradiction
  · cases target
  · cases located : symbol.location with
    | none =>
      rw [located] at target
      cases target
    | some address =>
      rw [located] at target
      exact congrArg some target

end Scope

/-- The second pass takes no error back. -/
theorem Emits.errors_le {assembler : Assembler} {program : Program} {exported : List Line}
    {emitted : Emitted} (emits : Emits assembler program exported emitted) :
    program.context.errors ≤ emitted.program.context.errors := by
  obtain ⟨reported, context, _⟩ := emits.context
  rw [context]
  exact Nat.le_add_right _ _

/-- A line with a word is resolved as it was read. -/
theorem Emits.line_of_addressed {assembler : Assembler} {program : Program} {exported : List Line}
    {emitted : Emitted} (emits : Emits assembler program exported emitted)
    (worded : ∀ line ∈ program.lines, line.addressed = true → line.Worded assembler) {k : Nat}
    {line : Line} (here : emitted.program.lines[k]? = some line)
    (addressed : line.addressed = true) :
    ∃ before, program.lines[k]? = some before ∧ before.addressed = true ∧
      line = program.scope.lineAfter assembler before := by
  obtain ⟨change, changes, same⟩ := emits.change
  rw [emits.lines, same, List.map_map, List.getElem?_map, Option.map_eq_some_iff] at here
  obtain ⟨before, known, rfl⟩ := here
  have keeps := (changes before).keeps.trans (program.scope.lineAfter_keeps assembler _)
  have worded := worded before (List.mem_of_getElem? known) (keeps.addressed.symm.trans addressed)
  refine ⟨before, known, keeps.addressed.symm.trans addressed, ?_⟩
  rw [Function.comp_apply, worded.exported (changes before)]

/-- The second pass patches the address field. A line with a word that says an instruction after
both passes was encoded on the first; its field is the address that its operand stands for, and the
bits above are those of its encoding. Only a label just past the end of memory sets the flag bit
too, and then the program has an error. -/
theorem Assembler.patched_addressField (assembler : Assembler) (text : Bytes) (date : Date)
    (emitted : Emitted)
    (success : assembler.emit (assembler.parse text).program date = .ok emitted) (k : Nat)
    (line : Line) (here : emitted.program.lines[k]? = some line) (addressed : line.addressed = true)
    (said : Instruction) (stated : line.statement = some (.instruction said)) :
    ∃ before, (assembler.parse text).program.lines[k]? = some before ∧
      before.statement = some (.instruction said) ∧
      said.encode assembler.opcodes = .ok before.word ∧
      line.word &&& Word.addressMask =
        Word.ofInt (emitted.program.scope.operandAddress line.location said) &&&
          Word.addressMask ∧
      (emitted.program.scope.pointsPast said = false → line.word >>> 10 = before.word >>> 10) ∧
      (emitted.program.scope.pointsPast said = true →
        line.word >>> 10 = (before.word >>> 10) ||| 1 ∧ emitted.program.context.errors ≠ 0) := by
  have emits := emit_exported success
  obtain ⟨running, closed⟩ := assembler.parse_running text emits.running
  have worded := assembler.parse_worded text emits.running
  have scope : emitted.program.scope = (assembler.parse text).program.scope := by
    obtain ⟨reported, context, _⟩ := emits.context
    rw [Program.scope, emit_symbols success, context]
    rfl
  obtain ⟨before, known, occupied, rfl⟩ := emits.line_of_addressed worded here addressed
  obtain ⟨same, resolved⟩ := Scope.resolved_of_lineAfter occupied stated
  have encodes := closed.encodes (Reading.ofLines_encodes _) before (List.mem_of_getElem? known)
    occupied said same
  have within : Reading.Within (assembler.parse text).program.symbols := by
    rw [closed.symbols]
    exact Reading.ofLines_within _
  have patched := Scope.resolveInstruction_patched encodes within resolved
  rw [scope, Scope.lineAfter_location]
  refine ⟨before, known, same, encodes.word, patched.field, patched.above, fun past => ?_⟩
  refine ⟨patched.flag past, fun clean => ?_⟩
  -- The addresses of a program without errors are in memory.
  obtain ⟨symbol, member, usage, located⟩ := Scope.symbol_of_pointsPast past
  have bounded := closed.bounded (Reading.ofLines_bounded assembler _)
  have quiet : (assembler.parse text).program.context.errors = 0 := by
    have grown := emits.errors_le
    omega
  have upper := (bounded.addresses quiet symbol member usage _ located).2
  omega

/-- A source with a jump to a label in memory, and one to a label just past its end. -/
def pastSource : Bytes :=
  ascii "PROG START 1022\n JUMP EQUAL NEAR\nNEAR JUMP EQUAL LAST\nLAST\n END PROG"

def pastJump (label : Bytes) : Instruction := ⟨.jump, ascii "EQUAL", ⟨label, .symbol, 0⟩, none, 0⟩

theorem emit_pastSource : ∃ (emitted : Emitted) (near far : Line),
    Assembler.emit {} (Assembler.parse {} pastSource).program Date.first = .ok emitted ∧
      (emitted.program.lines[1]? = some near ∧ near.addressed = true ∧
        near.statement = some (.instruction (pastJump (ascii "NEAR"))) ∧
        emitted.program.scope.pointsPast (pastJump (ascii "NEAR")) = false) ∧
      emitted.program.lines[2]? = some far ∧ far.addressed = true ∧
        far.statement = some (.instruction (pastJump (ascii "LAST"))) ∧
        emitted.program.scope.pointsPast (pastJump (ascii "LAST")) = true ∧
        far.word = 0x4400 := by
  have found : (Assembler.emit {} (Assembler.parse {} pastSource).program Date.first).toOption.any
      (fun emitted =>
        (emitted.program.lines[1]?.any fun near => near.addressed &&
          near.statement == some (.instruction (pastJump (ascii "NEAR")))) &&
        !emitted.program.scope.pointsPast (pastJump (ascii "NEAR")) &&
        (emitted.program.lines[2]?.any fun far => far.addressed &&
          far.statement == some (.instruction (pastJump (ascii "LAST"))) &&
          far.word == 0x4400) &&
        emitted.program.scope.pointsPast (pastJump (ascii "LAST"))) = true := by
    decide +kernel
  cases success : Assembler.emit {} (Assembler.parse {} pastSource).program Date.first with
  | error fault =>
    rw [success] at found
    cases found
  | ok emitted =>
    rw [success] at found
    simp only [Except.toOption, Option.any_some, Option.any_eq_true, Bool.and_eq_true,
      Bool.not_eq_true', beq_iff_eq] at found
    obtain ⟨⟨⟨⟨near, atNear, onNear, saidNear⟩, inside⟩, far, atFar, ⟨onFar, saidFar⟩, word⟩,
      past⟩ := found
    exact ⟨emitted, near, far, rfl, ⟨atNear, onNear, saidNear, inside⟩, atFar, onFar, saidFar, past,
      word⟩

/-- The jump to the label in memory keeps its bits, that past the end of memory gets the flag. -/
theorem Assembler.patched_addressField_pastSource :
    ∃ (emitted : Emitted) (near far nearBefore farBefore : Line),
    Assembler.emit {} (Assembler.parse {} pastSource).program Date.first = .ok emitted ∧
      emitted.program.lines[1]? = some near ∧ emitted.program.lines[2]? = some far ∧
      (Assembler.parse {} pastSource).program.lines[1]? = some nearBefore ∧
      (Assembler.parse {} pastSource).program.lines[2]? = some farBefore ∧
      near.word >>> 10 = nearBefore.word >>> 10 ∧ far.word >>> 10 = (farBefore.word >>> 10) ||| 1 ∧
      emitted.program.context.errors ≠ 0 := by
  obtain ⟨emitted, near, far, success, ⟨atNear, onNear, saidNear, inside⟩, atFar, onFar, saidFar,
    past, _⟩ := emit_pastSource
  obtain ⟨nearBefore, nearKnown, _, _, _, kept, _⟩ := Assembler.patched_addressField {} pastSource
    Date.first emitted success 1 near atNear onNear _ saidNear
  obtain ⟨farBefore, farKnown, _, _, _, _, flagged⟩ := Assembler.patched_addressField {} pastSource
    Date.first emitted success 2 far atFar onFar _ saidFar
  exact ⟨emitted, near, far, nearBefore, farBefore, success, atNear, atFar, nearKnown, farKnown,
    kept inside, flagged past⟩

/-- The second pass may change the bits above the address field. -/
theorem Assembler.patched_not_addressField : ¬ ∀ (assembler : Assembler) (text : Bytes)
    (date : Date) (emitted : Emitted),
    assembler.emit (assembler.parse text).program date = .ok emitted →
    ∀ (k : Nat) (line : Line), emitted.program.lines[k]? = some line → line.addressed = true →
    ∀ said : Instruction, line.statement = some (.instruction said) →
    ∃ encoded, said.encode assembler.opcodes = .ok encoded ∧
      line.word >>> 10 = encoded >>> 10 := by
  intro kept
  obtain ⟨emitted, _, far, success, _, atFar, onFar, saidFar, _, word⟩ := emit_pastSource
  obtain ⟨encoded, encodes, same⟩ := kept {} pastSource Date.first emitted success 2 far atFar onFar
    _ saidFar
  have found : (pastJump (ascii "LAST")).encode (Assembler.opcodes {}) = .ok 0x4000 := by
    decide +kernel
  rw [found] at encodes
  cases encodes
  rw [word] at same
  exact absurd same (by decide)

end WordAssembler

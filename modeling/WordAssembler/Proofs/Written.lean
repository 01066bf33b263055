import WordAssembler.Proofs.Clean
import WordAssembler.Proofs.Encoding

/-!
Programs without errors say what was written. The word of a line that says an instruction has the
bitcode of the table, through both passes; only an operand of the two functions that take none
replaces the word by the idle one, although it is no error.
-/

set_option autoImplicit false

namespace WordAssembler

/-- The instruction of the table that a source line says, with its entry. -/
def Assembler.written? (assembler : Assembler) (source : Bytes) : Option (Instruction × Opcode) :=
  let columns := assembler.columns source
  let (function, after) := Token.next columns.rest
  match assembler.command? columns.command with
  | some (.group group) =>
    if function.kind = .comment then none
    else (assembler.opcodes.find? group function.text).map
      (⟨group, upper function.text, Operand.ofToken (Token.next after).1, none, 0⟩, ·)
  | _ => none

/-- The line of an instruction after the first pass: it has the bitcode of the entry, or it is
idle because the instruction has an operand that it does not take. -/
inductive Line.Coded (instruction : Instruction) (entry : Opcode) (line : Line) : Prop
  | encoded (said : Instruction) (statement : line.statement = some (.instruction said))
      (bitcode : Bitcode.ofWord line.word = entry.bitcode) (proper : ¬ instruction.Overloaded)
  | idle (statement : line.statement = some .invalidated) (word : line.word = Line.idleWord)
      (overloaded : instruction.Overloaded)

theorem Line.Coded.of_same {instruction : Instruction} {entry : Opcode} {first second : Line}
    (coded : first.Coded instruction entry) (statement : second.statement = first.statement)
    (word : second.word = first.word) : second.Coded instruction entry := by
  cases coded with
  | encoded said stated bitcode proper =>
    exact .encoded said (statement.trans stated) (word ▸ bitcode) proper
  | idle stated idle overloaded => exact .idle (statement.trans stated) (word.trans idle) overloaded

namespace Pass

variable (p : Pass) (assembler : Assembler)

/-! ### The value of an equated operand -/

theorem substitute_group (instruction : Instruction) :
    (p.substitute instruction).group = instruction.group := by
  unfold substitute
  repeat' split
  all_goals rfl

theorem substitute_function (instruction : Instruction) :
    (p.substitute instruction).function = instruction.function := by
  unfold substitute
  repeat' split
  all_goals rfl

theorem substitute_kind (instruction : Instruction) :
    (p.substitute instruction).operand.kind = instruction.operand.kind := by
  unfold substitute
  repeat' split
  all_goals rfl

theorem substitute_overloaded (instruction : Instruction) :
    (p.substitute instruction).Overloaded ↔ instruction.Overloaded := by
  rw [Instruction.Overloaded, substitute_group, substitute_function, substitute_kind]
  rfl

theorem substitute_nonneg {instruction : Instruction}
    (values : ∀ symbol ∈ p.symbols.symbols, 0 ≤ symbol.value)
    (value : 0 ≤ instruction.operand.value) :
    0 ≤ (p.substitute instruction).operand.value := by
  unfold substitute
  split
  · split
    · rename_i symbol found
      split
      · exact values symbol (Symbol.Table.mem_of_get? found)
      · exact value
    · exact value
  · exact value

/-! ### The first pass -/

/-- An instruction of the table is encoded with its bitcode, if no error is found. -/
theorem encodeLine_coded {instruction : Instruction} {entry : Opcode}
    (listed : instruction.group ∈ Group.all)
    (found : assembler.opcodes.find? instruction.group instruction.function = some entry)
    (wellFormed : instruction.operand.kind ≠ .malformed) (value : 0 ≤ instruction.operand.value)
    (values : ∀ symbol ∈ p.symbols.symbols, 0 ≤ symbol.value)
    (errors : (p.encodeLine assembler instruction).context.errors = 0) :
    (p.encodeLine assembler instruction).line.Coded instruction entry := by
  have foundAfter : assembler.opcodes.find? (p.substitute instruction).group
      (p.substitute instruction).function = some entry := by
    rw [substitute_group, substitute_function, found]
  unfold encodeLine at errors ⊢
  rw [if_neg (by simp [found]), if_neg wellFormed] at errors ⊢
  dsimp only at errors ⊢
  split
  · rename_i word encoded
    refine .encoded (p.substitute instruction) rfl ?_ ?_
    · exact Instruction.encode_bitcode (substitute_nonneg p values value)
        (by rw [substitute_group]; exact listed) foundAfter encoded
    · intro overloaded
      rw [Instruction.Overloaded.encode foundAfter
        ((substitute_overloaded p instruction).2 overloaded)] at encoded
      cases encoded
  · rename_i key refused
    rw [refused] at errors
    refine .idle rfl rfl ((substitute_overloaded p instruction).1 ?_)
    refine Instruction.overloaded_of_encode foundAfter refused ?_
    cases severe : key.severity.isError with
    | false => rfl
    | true => exact absurd errors (report_errors_ne _ assembler severe)

/-- A line that is given a word without an error. -/
theorem allocate_of_clean {next : Pass → Pass}
    (errors : (p.allocate assembler next).context.errors = 0) :
    p.allocate assembler next = next p.occupy := by
  unfold allocate at errors ⊢
  split
  · rename_i full
    rw [if_pos full] at errors
    exact absurd errors (report_errors_ne p assembler rfl)
  · rfl

theorem readInstruction_coded {group : Group} {rest : Bytes} {entry : Opcode}
    (listed : group ∈ Group.all) (named : (Token.next rest).1.kind ≠ .comment)
    (found : assembler.opcodes.find? group (Token.next rest).1.text = some entry)
    (lower : 0 ≤ p.context.location) (values : ∀ symbol ∈ p.symbols.symbols, 0 ≤ symbol.value)
    (errors : (p.readInstruction assembler group rest).1.context.errors = 0) :
    (p.readInstruction assembler group rest).1.line.Coded
        ⟨group, upper (Token.next rest).1.text,
          Operand.ofToken (Token.next (Token.next rest).2).1, none, 0⟩ entry ∧
      (p.readInstruction assembler group rest).1.line.addressed = true := by
  let read := (p.readOperand assembler (Token.next rest).2).2.2
  let instruction : Instruction := ⟨group, upper (Token.next rest).1.text,
    Operand.ofToken (Token.next (Token.next rest).2).1, none, 0⟩
  let labelled := (read.setStatement (.instruction instruction)).defineOwnLabel assembler
  have whole : (p.readInstruction assembler group rest).1 =
      labelled.allocate assembler fun q => q.encodeLine assembler instruction := by
    simp only [readInstruction, readFunction, if_neg named]
    rfl
  rw [whole] at errors ⊢
  have given := allocate_of_clean labelled assembler errors
  rw [given] at errors ⊢
  have labels : Labels (read.setStatement (.instruction instruction)) labelled :=
    defineOwnLabel_labels _ assembler
  obtain ⟨added, remarks, _⟩ := readOperand_remarks p assembler (Token.next rest).2
  have settles := remarks.settles
  have kept : ∀ symbol ∈ read.symbols.symbols, 0 ≤ symbol.value := by
    rw [settles.symbols]
    exact values
  have positive : ∀ symbol ∈ labelled.symbols.symbols, 0 ≤ symbol.value :=
    labels.symbols.value_nonneg (show 0 ≤ read.context.location from settles.counter ▸ lower) kept
  have before : read.context.errors = 0 := by
    have first := labels.errors
    have second := (encodeLine_settles labelled.occupy assembler instruction).errors
    have third : labelled.occupy.context.errors = labelled.context.errors := rfl
    change read.context.errors ≤ labelled.context.errors at first
    omega
  refine ⟨?_, (encodeLine_settles labelled.occupy assembler instruction).addressed⟩
  refine encodeLine_coded _ assembler listed ?_ ?_ (Operand.ofToken_next_nonneg _) positive errors
  · exact (Opcodes.find?_upper _ _ _).trans found
  · exact readOperand_wellFormed p assembler _ before

/-- The end of a line without a serious diagnostic changes its comment and its diagnostics only. -/
theorem finishLine_of_clean {rest : Bytes}
    (clean : (p.finishLine assembler rest).line.has .serious = false) :
    (p.finishLine assembler rest).line.statement = p.line.statement ∧
      (p.finishLine assembler rest).line.word = p.line.word ∧
      (p.finishLine assembler rest).line.addressed = p.line.addressed := by
  obtain ⟨added, remarks, _⟩ := readTrailing_remarks p assembler rest
  obtain ⟨comment, line⟩ := remarks.line
  unfold finishLine at clean ⊢
  split
  · exact ⟨rfl, rfl, rfl⟩
  · rename_i running
    rw [if_neg running] at clean
    dsimp only at clean ⊢
    split
    · rename_i serious
      rw [if_pos serious] at clean
      simp only [Bool.and_eq_true] at serious
      rw [show (p.readTrailing assembler rest).invalidate.line.has .serious =
        (p.readTrailing assembler rest).line.has .serious from rfl, serious.1.2] at clean
      cases clean
    · rw [line]
      exact ⟨rfl, rfl, rfl⟩

end Pass

theorem Assembler.group_of_command? {assembler : Assembler} {token : Token} {group : Group}
    (command : assembler.command? token = some (.group group)) :
    token.kind = .label ∧ group ∈ Group.all := by
  unfold Assembler.command? at command
  split at command
  · rename_i word
    refine ⟨word, ?_⟩
    split at command
    · rename_i found
      cases command
      exact List.mem_of_find?_eq_some (Option.filter_eq_some_iff.1 found).1
    · obtain ⟨_, _, other⟩ := Option.map_eq_some_iff.1 command
      cases other
  · cases command

/-- A line with an instruction group is not blank. -/
theorem Assembler.isBlank_of_group {assembler : Assembler} {source : Bytes} {group : Group}
    (command : assembler.command? (assembler.columns source).command = some (.group group)) :
    Line.isBlank source = false := by
  obtain ⟨word, _⟩ := group_of_command? command
  have filled : (assembler.columns source).command.kind ≠ .empty := by simp [word]
  have uncommented : (assembler.columns source).command.kind ≠ .comment := by simp [word]
  exact isBlank_of_kind filled uncommented

/-- What is known of a line that says an instruction of the table. -/
theorem Assembler.written?_eq_some {assembler : Assembler} {source : Bytes}
    {instruction : Instruction} {entry : Opcode}
    (written : assembler.written? source = some (instruction, entry)) :
    ∃ group, assembler.command? (assembler.columns source).command = some (.group group) ∧
      (Token.next (assembler.columns source).rest).1.kind ≠ .comment ∧
      assembler.opcodes.find? group (Token.next (assembler.columns source).rest).1.text =
        some entry ∧
      instruction = ⟨group, upper (Token.next (assembler.columns source).rest).1.text,
        Operand.ofToken (Token.next (Token.next (assembler.columns source).rest).2).1, none,
        0⟩ := by
  unfold Assembler.written? at written
  dsimp only at written
  split at written
  · rename_i group command
    split at written
    · cases written
    · rename_i named
      obtain ⟨found, known, same⟩ := Option.map_eq_some_iff.1 written
      cases same
      exact ⟨group, command, named, known, rfl⟩
  · cases written

namespace Pass

variable (p : Pass) (assembler : Assembler)

/-- A line that says an instruction of the table is coded on the first pass, if no error is
found. -/
theorem readLine_coded {instruction : Instruction} {entry : Opcode} (fresh : p.Fresh)
    (bounded : Reading.Bounded p.context p.symbols)
    (written : assembler.written? p.line.source = some (instruction, entry))
    (errors : (p.readLine assembler).context.errors = 0) :
    (p.readLine assembler).line.Coded instruction entry ∧
      (p.readLine assembler).line.addressed = true := by
  obtain ⟨group, command, named, found, rfl⟩ := Assembler.written?_eq_some written
  obtain ⟨_, listed⟩ := Assembler.group_of_command? command
  have nonblank := Assembler.isBlank_of_group command
  have clean := ((readLine_follows p assembler).clean fresh.quiet errors).serious
  have read : p.readLine assembler = p.readCommand assembler := by
    unfold readLine at errors ⊢
    split at errors
    · exact absurd errors (report_errors_ne p assembler rfl)
    · rename_i first
      rw [if_neg first]
      split at errors
      · exact absurd errors (report_errors_ne p assembler rfl)
      · rename_i open_
        have unended : p.context.ended = false := by simpa [nonblank] using open_
        simp [unended, nonblank]
  rw [read, readCommand_group rfl command] at errors clean ⊢
  obtain ⟨_, _, counter, symbols, _⟩ := readLabel_settles p assembler
    (assembler.columns p.line.source).label fresh.unnamed fresh.unstated
  have coded := readInstruction_coded
    (p.readLabel assembler (assembler.columns p.line.source).label) assembler listed named found
    (counter ▸ bounded.lower) (symbols ▸ bounded.values)
  generalize (p.readLabel assembler (assembler.columns p.line.source).label).readInstruction
    assembler group (assembler.columns p.line.source).rest = result at errors clean coded ⊢
  obtain ⟨statement, same, addressed⟩ := finishLine_of_clean result.1 assembler clean
  obtain ⟨held, given⟩ := coded (errors_of_finishLine errors)
  exact ⟨held.of_same statement same, addressed.trans given⟩

end Pass

/-! ### The second pass -/

def Resolution.word? : Resolution → Option Word
  | .settled word _ => some word
  | .adjusted word _ => some word
  | .faulty _ => none

namespace Scope

variable {scope : Scope}

/-- Resolving an instruction keeps the bitcode, if the addresses are those of memory. -/
theorem resolveInstruction_bitcode {word after : Word} {location : Int} {instruction : Instruction}
    (start : 0 ≤ scope.start) (finish : scope.finish ≤ Word.lastAddress + 1)
    (inside : ∀ symbol ∈ scope.evaluator.symbols.symbols, symbol.usage ≠ .equated →
      ∀ address, symbol.location = some address → 0 ≤ address ∧ address ≤ Word.lastAddress)
    (resolved : (scope.resolveInstruction word location instruction).word? = some after) :
    Bitcode.ofWord after = Bitcode.ofWord word := by
  have addressed : ∀ {address : Int}, 0 ≤ address → address ≤ Word.lastAddress + 1 →
      Bitcode.ofWord (word.withAddress address) = Bitcode.ofWord word :=
    fun lower upper => word.ofWord_withAddress lower (by unfold Word.lastAddress at upper; omega)
  unfold resolveInstruction at resolved
  split at resolved
  · unfold resolveEquated at resolved
    repeat' split at resolved
    all_goals
      cases resolved
      rfl
  · split at resolved
    · unfold resolveSymbol at resolved
      split at resolved
      · cases resolved
      · rename_i symbol found
        split at resolved
        · cases resolved
          rfl
        · cases resolved
        · rename_i external equated
          split at resolved
          · rename_i address located
            obtain ⟨lower, upper⟩ := inside symbol (Symbol.Table.mem_of_get? found) equated
              address located
            cases resolved
            exact addressed lower (by omega)
          · cases resolved
    · unfold resolveExpression at resolved
      split at resolved
      · cases resolved
      · rename_i value adjustments _
        split at resolved
        · rename_i within
          simp only [contains, Bool.and_eq_true, decide_eq_true_eq] at within
          cases resolved
          exact addressed (by omega) (by omega)
        · cases resolved
    · cases resolved
      rfl

/-- The text record of a coded line that has no fault. -/
theorem record_coded {assembler : Assembler} {line : Line} {instruction : Instruction}
    {entry : Opcode} (start : 0 ≤ scope.start) (finish : scope.finish ≤ Word.lastAddress + 1)
    (inside : ∀ symbol ∈ scope.evaluator.symbols.symbols, symbol.usage ≠ .equated →
      ∀ address, symbol.location = some address → 0 ≤ address ∧ address ≤ Word.lastAddress)
    (addressed : line.addressed = true) (coded : line.Coded instruction entry)
    (faultless : ∀ key, scope.resolution line ≠ .faulty key) :
    if instruction.Overloaded then
      (scope.record assembler line).word = Line.idleWord ∧
        (scope.record assembler line).flag = .absolute
    else Bitcode.ofWord (scope.record assembler line).word = entry.bitcode := by
  have after : scope.lineAfter assembler line = (scope.resolution line).line assembler line := by
    rw [lineAfter, if_pos addressed]
  simp only [record, Emission.textRecord, after]
  cases coded with
  | encoded said statement bitcode proper =>
    have resolution : scope.resolution line =
        scope.resolveInstruction line.word line.location said := by
      simp only [Scope.resolution, statement]
    have kept : ∀ after, (scope.resolution line).word? = some after →
        Bitcode.ofWord after = Bitcode.ofWord line.word := by
      rw [resolution]
      exact fun after => resolveInstruction_bitcode start finish inside
    rw [if_neg proper, ← bitcode]
    cases outcome : scope.resolution line with
    | settled word flag => exact kept word (by rw [outcome]; rfl)
    | adjusted word adjustments => exact kept word (by rw [outcome]; rfl)
    | faulty key => exact absurd outcome (faultless key)
  | idle statement word overloaded =>
    rw [if_pos overloaded, resolution_of_invalidated statement]
    exact ⟨word, rfl⟩

end Scope

/-! ### Assemblies -/

/-- The items with the key of one of them, if keys are different. -/
theorem filter_eq_singleton {α β : Type} [DecidableEq β] {key : α → β} {items : List α} {item : α}
    (distinct : (items.map key).Nodup) (member : item ∈ items) :
    items.filter (fun other => key other = key item) = [item] := by
  induction items with
  | nil => cases member
  | cons head rest ih =>
    obtain ⟨apart, distinct⟩ := List.nodup_cons.1 distinct
    rcases List.mem_cons.1 member with rfl | later
    · have none : ∀ other ∈ rest, ¬ key other = key item := by
        intro other known same
        exact apart (same ▸ List.mem_map_of_mem known)
      simpa using none
    · have other : key head ≠ key item := by
        intro same
        exact apart (same ▸ List.mem_map_of_mem later)
      rw [List.filter_cons_of_neg (by simpa using other)]
      exact ih distinct later

/-- In an assembly without errors, every source line that says an instruction of the table has one
text record at its location, and the bitcode of that record is that of the table. The one exception
is an operand of an instruction that takes none: it only gives a warning, but the record is idle. -/
theorem Assembler.written_encoded (assembler : Assembler) (text : Bytes) (date : Date)
    (file : ObjectFile) (success : (assembler.assemble text date).outcome = .ok file)
    (clean : (assembler.assemble text date).program.context.errors = 0) (k : Nat) (source : Bytes)
    (here : (Lines.read text).lines[k]? = some source) (instruction : Instruction) (entry : Opcode)
    (written : assembler.written? (dropTrailing Lines.isCarriageReturn source) =
      some (instruction, entry)) :
    ∃ line record, (assembler.assemble text date).program.lines[k]? = some line ∧
      file.text.filter (·.location = line.location) = [record] ∧
      if instruction.Overloaded then record.word = Line.idleWord ∧ record.flag = .absolute
      else Bitcode.ofWord record.word = entry.bitcode := by
  obtain ⟨_, emitted, emission, sameProgram, rfl⟩ := assemble_ok success
  rw [sameProgram] at clean ⊢
  obtain ⟨exported, emits⟩ := assembler.emit_emits emission
  obtain ⟨before, unexported, faultless⟩ := emits.clean clean
  obtain ⟨running, closed⟩ := assembler.parse_running text emits.running
  have errors := closed.errors.symm.trans before
  have bounded := closed.bounded (Reading.ofLines_bounded assembler (Lines.read text).lines)
  obtain ⟨line, placed, coded, addressed⟩ : ∃ line,
      (assembler.parse text).program.lines[k]? = some line ∧ line.Coded instruction entry ∧
        line.addressed = true := by
    obtain ⟨diagnostics, _, placed⟩ := closed.line_of_reading (Reading.line_of_source here running)
    obtain ⟨coded, addressed⟩ := Pass.readLine_coded _ assembler
      (Reading.fresh_isFresh (Reading.ofLines assembler ((Lines.read text).lines.take k))
        (source, k + 1)) (Reading.ofLines_bounded assembler _) written
      (Reading.stepped_errors here running errors)
    exact ⟨_, placed, coded.of_same rfl rfl, addressed⟩
  have member := List.mem_of_getElem? placed
  refine ⟨(assembler.parse text).program.scope.lineAfter assembler line,
    (assembler.parse text).program.scope.record assembler line, ?_, ?_,
    Scope.record_coded bounded.start bounded.upper (bounded.addresses before) addressed coded
      (faultless line member addressed)⟩
  · rw [emits.lines, unexported, List.getElem?_map, placed]
    rfl
  · have nonempty : (Lines.read text).lines ≠ [] := by
      intro empty
      rw [empty] at here
      cases here
    have distinct := Assembler.text_distinct (Reading.started_of_clean nonempty errors) emission
    have recorded : (assembler.parse text).program.scope.record assembler line ∈
        emitted.file.text := by
      rw [emits.text, unexported]
      exact List.mem_map_of_mem (List.mem_filter.2 ⟨member, addressed⟩)
    exact filter_eq_singleton distinct recorded

/-- A source with a warning for each of its instructions: a second label and an operand. -/
def warnedSource : Bytes :=
  ascii "PROG START 0\nONE STACK PUSH 5\nONE JUMP EQUAL ONE\n CNTL CLRD,5\n END PROG"

/-- The jump is encoded for all its warning, and the idle word is that of another instruction. -/
theorem Assembler.written_encoded_warnedSource : ∃ file,
    (Assembler.assemble {} warnedSource Date.first).outcome = .ok file ∧
      (∃ line record,
        (Assembler.assemble {} warnedSource Date.first).program.lines[2]? = some line ∧
        file.text.filter (·.location = line.location) = [record] ∧
        Bitcode.ofWord record.word = 0b01000) ∧
      ∃ line record, (Assembler.assemble {} warnedSource Date.first).program.lines[3]? = some line ∧
        file.text.filter (·.location = line.location) = [record] ∧
        record.word = Line.idleWord ∧ record.flag = .absolute := by
  have clean : (Assembler.assemble {} warnedSource Date.first).program.context.errors = 0 := by
    decide +kernel
  have assembled :
      (Assembler.assemble {} warnedSource Date.first).outcome.toOption.isSome = true := by
    decide +kernel
  cases success : (Assembler.assemble {} warnedSource Date.first).outcome with
  | error fault =>
    rw [success] at assembled
    cases assembled
  | ok file =>
    obtain ⟨jump, jumped, atJump, onlyJump, encoded⟩ := Assembler.written_encoded {} warnedSource
      Date.first file success clean 2 (ascii "ONE JUMP EQUAL ONE") (by decide +kernel)
      ⟨.jump, ascii "EQUAL", ⟨ascii "ONE", .symbol, 0⟩, none, 0⟩ ⟨.jump, ascii "EQUAL", 0b01000⟩
      (by decide +kernel)
    obtain ⟨clear, cleared, atClear, onlyClear, idle⟩ := Assembler.written_encoded {} warnedSource
      Date.first file success clean 3 (ascii " CNTL CLRD,5") (by decide +kernel)
      ⟨.cntl, ascii "CLRD", ⟨ascii "5", .number, 5⟩, none, 0⟩ ⟨.cntl, ascii "CLRD", 0b00010⟩
      (by decide +kernel)
    rw [if_neg (by decide)] at encoded
    rw [if_pos (by decide)] at idle
    exact ⟨file, rfl, ⟨jump, jumped, atJump, onlyJump, encoded⟩,
      ⟨clear, cleared, atClear, onlyClear, idle⟩⟩

/-- A source without errors whose only instruction has an operand that it does not take. -/
def clearSource : Bytes := ascii "PROG START 0\n CNTL CLRD,5\n END PROG"

/-- A program without errors need not have the bitcodes of its instructions. -/
theorem Assembler.written_not_encoded : ¬ ∀ (assembler : Assembler) (text : Bytes) (date : Date)
    (file : ObjectFile), (assembler.assemble text date).outcome = .ok file →
    (assembler.assemble text date).program.context.errors = 0 →
    ∀ (k : Nat) (source : Bytes), (Lines.read text).lines[k]? = some source →
    ∀ (instruction : Instruction) (entry : Opcode),
      assembler.written? (dropTrailing Lines.isCarriageReturn source) = some (instruction, entry) →
    ∃ line record, (assembler.assemble text date).program.lines[k]? = some line ∧
      record ∈ file.text ∧ record.location = line.location ∧
      Bitcode.ofWord record.word = entry.bitcode := by
  intro encoded
  have clean : (Assembler.assemble {} clearSource Date.first).program.context.errors = 0 := by
    decide +kernel
  have idle : (Assembler.assemble {} clearSource Date.first).outcome.toOption.any
      (fun file => file.text.map (·.word) == [0x8000]) = true := by
    decide +kernel
  cases success : (Assembler.assemble {} clearSource Date.first).outcome with
  | error fault =>
    rw [success] at idle
    cases idle
  | ok file =>
    rw [success] at idle
    obtain ⟨line, record, _, member, _, bitcode⟩ := encoded {} clearSource Date.first file success
      clean 1 (ascii " CNTL CLRD,5") (by decide +kernel)
      ⟨.cntl, ascii "CLRD", ⟨ascii "5", .number, 5⟩, none, 0⟩ ⟨.cntl, ascii "CLRD", 0b00010⟩
      (by decide +kernel)
    have words : file.text.map (·.word) = [0x8000] := beq_iff_eq.1 idle
    have word : record.word ∈ file.text.map (·.word) := List.mem_map_of_mem member
    rw [words, List.mem_singleton] at word
    rw [word] at bitcode
    revert bitcode
    decide

end WordAssembler

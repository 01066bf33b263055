import WordAssembler.Proofs.Clean
import WordAssembler.Proofs.Words

/-!
What the first pass finds wrong on a line with a word: in its label column, in its operand, in the
definition of its label, in what it says, and after its operand. All of that is on the line at the
end of the pass, in this order, also where the line was given up on the way.
-/

set_option autoImplicit false

namespace WordAssembler

namespace Pass

/-! ### What can be wrong -/

def labelFaults : Option Token → List Key
  | some token =>
    if token.kind ≠ .label then [.labelForm]
    else if Expression.isLabelLength token.text then []
    else [.labelLength]
  | none => []

def operandFaults (operand : Operand) : List Key :=
  if operand.kind = .malformed then [.malformed] else []

/-- What is wrong with the definition of a label: it is defined before, other than by an ENTRY that
waits for it. -/
def definitionFaults (symbols : Symbol.Table) (label : Option Bytes) : List Key :=
  match label.bind symbols.get? with
  | some symbol => if symbol.usage = .entry ∧ !symbol.isLocated then [] else [.redefined]
  | none => []

/-- What is wrong with an instruction. Nothing more is said of a malformed operand. -/
def instructionFaults (p : Pass) (assembler : Assembler) (instruction : Instruction) : List Key :=
  if (assembler.opcodes.find? instruction.group instruction.function).isNone then [.badFunction]
  else if instruction.operand.kind = .malformed then []
  else
    match (p.substitute instruction).encode assembler.opcodes with
    | .ok _ => []
    | .error key => [key]

/-- What is wrong with the operand of a directive that gives its line a word. -/
def directiveFaults (directive : Directive) (operand : Operand) : List Key :=
  match directive with
  | .dat => if operand.kind.isLiteral ∨ operand.kind = .malformed then [] else [.dataOperand]
  | .adc | .adce => if operand.kind = .none then [.operandRequired] else []
  | .nop => if operand.kind = .none then [] else [.noOperand]
  | _ => []

def trailingFaults (rest : Bytes) : List Key :=
  match (Token.next rest).1.kind with
  | .empty | .comment => []
  | _ => [.trailing]

/-- What is wrong with a line that is about to be read, if it gets a word. -/
def faults (p : Pass) (assembler : Assembler) : List Key :=
  let columns := assembler.columns p.line.source
  let defined := definitionFaults p.symbols (acceptedLabel columns.label)
  match assembler.command? columns.command with
  | some (.group group) =>
    let instruction := (p.readFunction assembler group columns.rest).1
    labelFaults columns.label ++ operandFaults instruction.operand ++ defined ++
      p.instructionFaults assembler instruction ++ trailingFaults (afterTokens 2 columns.rest)
  | some (.directive directive) =>
    let operand := Operand.ofToken (Token.next columns.rest).1
    labelFaults columns.label ++ operandFaults operand ++ defined ++
      directiveFaults directive operand ++ trailingFaults (afterTokens 1 columns.rest)
  | none => []

/-! ### Steps -/

/-- One pass is another after work on the same line that found some faults, in their order. -/
def Finds (assembler : Assembler) (p q : Pass) (found : List Key) : Prop :=
  q.line.diagnostics = p.line.diagnostics ++ found.map assembler.catalog.lookup

variable {assembler : Assembler} {p q r : Pass}

theorem Finds.of_same (same : q.line.diagnostics = p.line.diagnostics) :
    Finds assembler p q [] := by
  rw [Finds, same, List.map_nil, List.append_nil]

theorem Finds.trans {first second : List Key} (left : Finds assembler p q first)
    (right : Finds assembler q r second) : Finds assembler p r (first ++ second) := by
  unfold Finds at left right ⊢
  rw [right, left, List.map_append, List.append_assoc]

variable (assembler) (p)

theorem report_finds (key : Key) : Finds assembler p (p.report assembler key) [key] := by
  rw [Finds, report_line]
  rfl

/-- Giving up a line leaves what was found on it. -/
theorem invalidate_finds : Finds assembler p p.invalidate [] := .of_same rfl

theorem readLabel_finds (column : Option Token) :
    Finds assembler p (p.readLabel assembler column) (labelFaults column) := by
  cases column with
  | none => exact .of_same rfl
  | some token =>
    unfold readLabel labelFaults
    dsimp only
    split
    · exact report_finds assembler p _
    · cases Expression.isLabelLength token.text with
      | false => exact report_finds assembler p _
      | true => exact .of_same rfl

theorem readOperand_finds (rest : Bytes) : Finds assembler p (p.readOperand assembler rest).2.2
    (operandFaults (Operand.ofToken (Token.next rest).1)) := by
  have commented : Finds assembler p (if (Token.next rest).1.kind = .comment then
      p.setComment (some (Token.next rest).1.text) else p) [] := by
    split <;> exact .of_same rfl
  unfold readOperand operandFaults
  dsimp only
  split
  · exact commented.trans (report_finds assembler _ _)
  · exact commented

theorem readFunction_finds (group : Group) (rest : Bytes) :
    Finds assembler p (p.readFunction assembler group rest).2.2
      (operandFaults (p.readFunction assembler group rest).1.operand) := by
  unfold readFunction
  dsimp only
  split
  · exact .of_same rfl
  · exact readOperand_finds assembler p (Token.next rest).2

theorem defineOwnLabel_finds : Finds assembler p (p.defineOwnLabel assembler)
    (definitionFaults p.symbols p.line.label) := by
  unfold defineOwnLabel definitionFaults
  cases p.line.label with
  | none => exact .of_same rfl
  | some label =>
    dsimp only [Option.bind_some]
    unfold defineLabel
    cases p.symbols.get? label with
    | none => exact .of_same rfl
    | some symbol =>
      dsimp only
      split
      · exact .of_same rfl
      · exact report_finds assembler p _

theorem encodeLine_finds (instruction : Instruction) :
    Finds assembler p (p.encodeLine assembler instruction)
      (p.instructionFaults assembler instruction) := by
  have fails : ∀ (q : Pass) (key : Key), q.line.diagnostics = p.line.diagnostics →
      Finds assembler p (q.fail assembler key) [key] := fun q key same =>
    ((Finds.of_same same).trans (report_finds assembler q key)).trans (invalidate_finds assembler _)
  unfold encodeLine instructionFaults
  split
  · exact fails p _ rfl
  · split
    · exact invalidate_finds assembler p
    · dsimp only
      cases (p.substitute instruction).encode assembler.opcodes with
      | ok word => exact .of_same rfl
      | error key => exact fails _ key rfl

theorem readTrailing_finds (rest : Bytes) :
    Finds assembler p (p.readTrailing assembler rest) (trailingFaults rest) := by
  unfold readTrailing trailingFaults
  dsimp only
  cases (Token.next rest).1.kind with
  | empty => exact .of_same rfl
  | comment => exact .of_same rfl
  | _ => exact report_finds assembler p _

variable {p}

/-- The end of a line without a fault leaves what was found before, although it may give it up. -/
theorem finishLine_finds {rest : Bytes} (running : (p.finishLine assembler rest).fatal = none) :
    Finds assembler p (p.finishLine assembler rest) (trailingFaults rest) := by
  have trailing := readTrailing_finds assembler p rest
  unfold finishLine at running ⊢
  split
  · rename_i halted
    rw [if_pos halted] at running
    rw [running] at halted
    cases halted
  · dsimp only
    split
    · simpa using trailing.trans (invalidate_finds assembler _)
    · exact trailing

/-! ### Words -/

theorem substitute_of_symbols (same : q.symbols = p.symbols) (instruction : Instruction) :
    q.substitute instruction = p.substitute instruction := by
  unfold substitute
  rw [same]

/-- No definition of a label changes what a name is equated to. -/
theorem substitute_defineLabel (label : Bytes) (location : Int) (instruction : Instruction) :
    (p.defineLabel assembler label location).substitute instruction =
      p.substitute instruction := by
  unfold defineLabel
  cases known : p.symbols.get? label with
  | none =>
    have extended : p.symbols.extend ⟨label, some location, .label, 0, 0⟩ =
        p.symbols.insert ⟨label, some location, .label, 0, 0⟩ :=
      Symbol.Table.extend_of_absent known
    by_cases same : label = instruction.operand.text
    · simp [substitute, extended, Symbol.Table.get?_insert, ← same, known]
    · simp [substitute, extended, Symbol.Table.get?_insert, same]
  | some symbol =>
    dsimp only
    split
    · rename_i entry
      have named := Symbol.Table.label_of_get? known
      by_cases same : label = instruction.operand.text
      · simp [substitute, Symbol.Table.get?_insert, named, ← same, known, entry.1]
      · simp [substitute, Symbol.Table.get?_insert, named, same]
    · exact substitute_of_symbols (report_symbols p assembler _) instruction

theorem substitute_defineOwnLabel (instruction : Instruction) :
    (p.defineOwnLabel assembler).substitute instruction = p.substitute instruction := by
  unfold defineOwnLabel
  split
  · exact substitute_defineLabel assembler _ _ instruction
  · rfl

theorem instructionFaults_congr {instruction : Instruction}
    (same : q.substitute instruction = p.substitute instruction) :
    q.instructionFaults assembler instruction = p.instructionFaults assembler instruction := by
  unfold instructionFaults
  rw [same]

variable {assembler}

/-- A line that got a word got it at the location counter. -/
theorem allocate_of_addressed {next : Pass → Pass} (unaddressed : p.line.addressed = false)
    (addressed : (p.allocate assembler next).line.addressed = true) :
    p.allocate assembler next = next p.occupy := by
  unfold allocate at addressed ⊢
  split
  · rename_i full
    rw [if_pos full, report_line, unaddressed] at addressed
    cases addressed
  · rfl

/-- What was found when a line with a label has got a word. -/
theorem allocateOwn_finds {next : Pass → Pass} {found : List Key}
    (finds : Finds assembler (p.defineOwnLabel assembler).occupy
      (next (p.defineOwnLabel assembler).occupy) found)
    (unaddressed : p.line.addressed = false)
    (addressed : ((p.defineOwnLabel assembler).allocate assembler next).line.addressed = true) :
    Finds assembler p ((p.defineOwnLabel assembler).allocate assembler next)
      (definitionFaults p.symbols p.line.label ++ found) := by
  have before := (defineOwnLabel_labels p assembler).addressed.trans unaddressed
  rw [allocate_of_addressed before addressed]
  exact (defineOwnLabel_finds assembler p).trans finds

/-- What is said of an instruction whose line gets a word. -/
theorem readInstruction_finds {group : Group} {rest : Bytes}
    (unaddressed : p.line.addressed = false)
    (addressed : (p.readInstruction assembler group rest).1.line.addressed = true) :
    Finds assembler p (p.readInstruction assembler group rest).1
      (operandFaults (p.readFunction assembler group rest).1.operand ++
        (definitionFaults p.symbols p.line.label ++
          p.instructionFaults assembler (p.readFunction assembler group rest).1)) := by
  have settles : Settles p (p.readFunction assembler group rest).2.2 := by
    obtain ⟨_, remarks⟩ := readFunction_remarks p assembler group rest
    exact remarks.settles
  have read := readFunction_finds assembler p group rest
  unfold readInstruction at addressed ⊢
  dsimp only at addressed ⊢
  generalize p.readFunction assembler group rest = found at settles read addressed ⊢
  obtain ⟨instruction, after, q⟩ := found
  dsimp only at settles read addressed ⊢
  have label : (q.setStatement (.instruction instruction)).line.label = p.line.label :=
    settles.label
  have symbols : (q.setStatement (.instruction instruction)).symbols = p.symbols :=
    settles.symbols
  have before : (q.setStatement (.instruction instruction)).line.addressed = false :=
    settles.addressed.trans unaddressed
  -- The own label is defined before the instruction is encoded; its operand stands for the same.
  have faults : (((q.setStatement (.instruction instruction)).defineOwnLabel
      assembler).occupy).instructionFaults assembler instruction =
        p.instructionFaults assembler instruction :=
    instructionFaults_congr assembler ((substitute_defineOwnLabel assembler instruction).trans
      (substitute_of_symbols symbols instruction))
  have said := allocateOwn_finds (encodeLine_finds assembler _ instruction) before addressed
  rw [label, symbols, faults] at said
  exact read.trans said

/-- What is said of the operand of a directive whose line gets a word. -/
theorem applyDirective_finds {directive : Directive} {operand : Operand}
    (given : directive ∈ [.dat, .adc, .adce, .nop]) (unaddressed : p.line.addressed = false)
    (addressed : (p.applyDirective assembler directive operand).line.addressed = true) :
    Finds assembler p (p.applyDirective assembler directive operand)
      (definitionFaults p.symbols p.line.label ++ directiveFaults directive operand) := by
  have constant : ∀ q : Pass, Finds assembler q
      (if operand.kind = .none then q.report assembler .operandRequired else q)
        (if operand.kind = .none then [.operandRequired] else []) := by
    intro q
    split
    · exact report_finds assembler q _
    · exact .of_same rfl
  cases directive with
  | dat =>
    refine allocateOwn_finds ?_ unaddressed addressed
    unfold directiveFaults
    cases literal : operand.kind.isLiteral with
    | true => exact .of_same rfl
    | false =>
      simp only [Bool.false_eq_true, ↓reduceIte, false_or]
      split
      · exact .of_same rfl
      · exact report_finds assembler _ _
  | adc => exact allocateOwn_finds (constant _) unaddressed addressed
  | adce => exact allocateOwn_finds (constant _) unaddressed addressed
  | nop =>
    refine allocateOwn_finds ?_ unaddressed addressed
    unfold directiveFaults
    dsimp only
    split
    · exact .of_same rfl
    · exact report_finds assembler _ _
  | _ => simp at given

theorem readDirective_finds {directive : Directive} {rest : Bytes}
    (unaddressed : p.line.addressed = false)
    (addressed : (p.readDirective assembler directive rest).1.line.addressed = true) :
    Finds assembler p (p.readDirective assembler directive rest).1
      (operandFaults (Operand.ofToken (Token.next rest).1) ++
        (definitionFaults p.symbols p.line.label ++
          directiveFaults directive (Operand.ofToken (Token.next rest).1))) := by
  have settles : Settles p (p.readOperand assembler rest).2.2 := by
    obtain ⟨_, remarks, _⟩ := readOperand_remarks p assembler rest
    exact remarks.settles
  have read := readOperand_finds assembler p rest
  unfold readDirective at addressed ⊢
  dsimp only at addressed ⊢
  have operand : (p.readOperand assembler rest).1 = Operand.ofToken (Token.next rest).1 := rfl
  rw [operand] at addressed ⊢
  generalize Operand.ofToken (Token.next rest).1 = operand at read addressed ⊢
  generalize (p.readOperand assembler rest).2.2 = q at settles read addressed ⊢
  have label : (q.setStatement (.directive directive operand)).line.label = p.line.label :=
    settles.label
  have symbols : (q.setStatement (.directive directive operand)).symbols = p.symbols :=
    settles.symbols
  have before : (q.setStatement (.directive directive operand)).line.addressed = false :=
    settles.addressed.trans unaddressed
  have given : directive ∈ [.dat, .adc, .adce, .nop] := by
    by_contra plain
    rw [applyDirective_unaddressed assembler _ directive operand plain, before] at addressed
    cases addressed
  have said := applyDirective_finds given before addressed
  rw [label, symbols] at said
  exact read.trans said

/-! ### Lines -/

theorem readFunction_instruction (q : Pass) (group : Group) (rest : Bytes) :
    (q.readFunction assembler group rest).1 = (p.readFunction assembler group rest).1 := by
  unfold readFunction
  dsimp only
  split <;> rfl

theorem readCommand_finds (fresh : p.Fresh) (running : (p.readCommand assembler).fatal = none)
    (addressed : (p.readCommand assembler).line.addressed = true) :
    Finds assembler p (p.readCommand assembler) (p.faults assembler) := by
  generalize split : assembler.columns p.line.source = columns
  have holds := readLabel_holds assembler fresh columns.label
  have labelled := readLabel_finds assembler p columns.label
  obtain ⟨_, _, _, symbols, given, _⟩ := readLabel_settles p assembler columns.label fresh.unnamed
    fresh.unstated
  have unaddressed := given.trans fresh.unaddressed
  unfold faults
  dsimp only
  rw [split]
  cases named : assembler.command? columns.command with
  | none =>
    rw [readCommand_unknown split named, readUnknown_unaddressed, unaddressed] at addressed
    cases addressed
  | some command =>
    cases command with
    | group group =>
      rw [readCommand_group split named] at running addressed ⊢
      rw [(finishLine_settles _ assembler _).addressed] at addressed
      have read := readInstruction_finds unaddressed addressed
      obtain ⟨_, after⟩ := readInstruction_holds assembler group columns.rest holds
      rw [after] at running ⊢
      have finished := labelled.trans (read.trans (finishLine_finds assembler running))
      rw [holds.label, symbols, readFunction_instruction (p := p),
        instructionFaults_congr assembler (substitute_of_symbols symbols _)] at finished
      simpa only [List.append_assoc] using finished
    | directive directive =>
      rw [readCommand_directive split named] at running addressed ⊢
      rw [(finishLine_settles _ assembler _).addressed] at addressed
      have read := readDirective_finds unaddressed addressed
      have after : ((p.readLabel assembler columns.label).readDirective assembler directive
          columns.rest).2 = afterTokens 1 columns.rest := rfl
      rw [after] at running ⊢
      have finished := labelled.trans (read.trans (finishLine_finds assembler running))
      rw [holds.label, symbols] at finished
      simpa only [List.append_assoc] using finished

/-- Everything that was found on a line with a word is on it after the first pass. -/
theorem readLine_finds (fresh : p.Fresh) (running : (p.readLine assembler).fatal = none)
    (addressed : (p.readLine assembler).line.addressed = true) :
    (p.readLine assembler).line.diagnostics =
      (p.faults assembler).map assembler.catalog.lookup := by
  have whole : Finds assembler p (p.readLine assembler) (p.faults assembler) := by
    rcases readLine_cases p assembler with ⟨key, _, refused⟩ | blank | ⟨_, _, command⟩
    · rw [refused, report_line, fresh.unaddressed] at addressed
      cases addressed
    · rw [blank, readBlank, setComment, mapLine, fresh.unaddressed] at addressed
      cases addressed
    · rw [command] at running addressed ⊢
      exact readCommand_finds fresh running addressed
  rw [whole, fresh.quiet]
  rfl

end Pass

/-- What was found on a source line that got a word, as far as the source was read. -/
theorem Reading.stepped_finds {assembler : Assembler} {sources : List Bytes} {k : Nat}
    {source : Bytes} (here : sources[k]? = some source)
    (running : (ofLines assembler sources).fatal = none)
    (addressed : ((ofLines assembler (sources.take k)).stepped assembler
      (source, k + 1)).line.addressed = true) :
    ((ofLines assembler (sources.take k)).stepped assembler (source, k + 1)).line.diagnostics =
      (((ofLines assembler (sources.take k)).fresh (source, k + 1)).faults assembler).map
        assembler.catalog.lookup :=
  Pass.readLine_finds (fresh_isFresh _ _) (stepped_running here running) addressed

end WordAssembler

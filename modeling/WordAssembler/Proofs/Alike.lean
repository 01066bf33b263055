import WordAssembler.Proofs.Commented

/-!
Two first passes at lines that say the same. What is read from a line does not depend on the number
of the line, on a comment after it, or on how many diagnostics were counted before: two passes that
differ in nothing else do the same to the program.
-/

set_option autoImplicit false

namespace WordAssembler

namespace Context

/-- The state of an assembly but for its counts of diagnostics. -/
def uncounted (context : Context) : Context := { context with errors := 0, warnings := 0 }

theorem uncounted_count {first second : Context} (same : second.uncounted = first.uncounted)
    (added : List Diagnostic) : (second.count added).uncounted = (first.count added).uncounted := by
  have counted : ∀ context : Context, (context.count added).uncounted =
      { context.uncounted with
        fatal := context.uncounted.fatal || added.any (·.key.severity = .fatal) } :=
    fun _ => rfl
  rw [counted, counted, same]

end Context

/-- The line but for its number, its text and its comment. -/
def Line.bare (line : Line) : Line := { line with number := 0, source := [], comment := none }

/-- The number of the line with a fatal fault, and the key of the fault. -/
def FatalFault.mark (fault : FatalFault) : Nat × Key := (fault.number, fault.cause.key)

namespace Pass

/-- Two passes that differ at most in the number, the text and the comment of the line, in the
diagnostics counted before, and in the log. -/
structure Alike (p q : Pass) : Prop where
  context : q.context.uncounted = p.context.uncounted
  symbols : q.symbols = p.symbols
  line : q.line.bare = p.line.bare
  fatal : q.fatal.isSome = p.fatal.isSome
  mark : q.line.number = p.line.number →
    q.fatal.map FatalFault.mark = p.fatal.map FatalFault.mark

variable {p q : Pass} (alike : Alike p q) (assembler : Assembler)
include alike

theorem Alike.location : q.context.location = p.context.location :=
  (congrArg Context.location alike.context :)

theorem Alike.evaluator : q.evaluator = p.evaluator := by
  rw [Pass.evaluator, Pass.evaluator, alike.symbols]
  exact congrArg (Expression.Evaluator.mk p.symbols) (congrArg Context.program alike.context :)

theorem Alike.label : q.line.label = p.line.label := (congrArg Line.label alike.line :)

/-! ### Small changes -/

/-- The same change to both lines. -/
theorem Alike.mapLine (change : Line → Line) (same : ∀ line, (change line).bare = change line.bare)
    (number : ∀ line, (change line).number = line.number) :
    Alike (p.mapLine change) (q.mapLine change) := by
  refine ⟨alike.context, alike.symbols, ?_, alike.fatal, ?_⟩
  · simp only [Pass.mapLine, same, alike.line]
  · simp only [Pass.mapLine, number]
    exact alike.mark

theorem Alike.setStatement (statement : Statement) :
    Alike (p.setStatement statement) (q.setStatement statement) :=
  alike.mapLine _ (fun _ => rfl) fun _ => rfl

theorem Alike.setWord (word : Word) : Alike (p.setWord word) (q.setWord word) :=
  alike.mapLine _ (fun _ => rfl) fun _ => rfl

theorem Alike.invalidate : Alike p.invalidate q.invalidate :=
  alike.mapLine _ (fun _ => rfl) fun _ => rfl

/-- Comments do not count. -/
theorem Alike.setComment (first second : Option Bytes) :
    Alike (p.setComment first) (q.setComment second) :=
  ⟨alike.context, alike.symbols, alike.line, alike.fatal, alike.mark⟩

theorem Alike.setComment_right (comment : Option Bytes) : Alike p (q.setComment comment) :=
  ⟨alike.context, alike.symbols, alike.line, alike.fatal, alike.mark⟩

/-- Nor does it count which of two tokens is a comment. -/
theorem Alike.keepComment (first second : Token) :
    Alike (if first.kind = .comment then p.setComment (some first.text) else p)
      (if second.kind = .comment then q.setComment (some second.text) else q) := by
  split <;> split <;> exact ⟨alike.context, alike.symbols, alike.line, alike.fatal, alike.mark⟩

theorem Alike.withSymbols (symbols : Symbol.Table) :
    Alike { p with symbols := symbols } { q with symbols := symbols } :=
  ⟨alike.context, rfl, alike.line, alike.fatal, alike.mark⟩

theorem Alike.note (first second : Bytes) :
    Alike (p.note assembler first) (q.note assembler second) := by
  refine ⟨?_, ?_, ?_, ?_, ?_⟩
  · rw [note_context, note_context, alike.context]
  · rw [note_symbols, note_symbols, alike.symbols]
  · rw [note_line, note_line, alike.line]
  · rw [note_fatal, note_fatal, alike.fatal]
  · rw [note_line, note_line, note_fatal, note_fatal]
    exact alike.mark

theorem Alike.report (key : Key) : Alike (p.report assembler key) (q.report assembler key) := by
  have remarked : ∀ line : Line, { line with
      diagnostics := line.diagnostics ++ [assembler.catalog.lookup key] }.bare =
      { line.bare with
        diagnostics := line.bare.diagnostics ++ [assembler.catalog.lookup key] } := fun _ => rfl
  refine ⟨?_, ?_, ?_, ?_, ?_⟩
  · rw [report_context, report_context]
    exact Context.uncounted_count alike.context _
  · rw [report_symbols, report_symbols, alike.symbols]
  · rw [report_line, report_line, remarked, remarked, alike.line]
  · rw [report_fatal, report_fatal]
    split
    · simp
    · exact alike.fatal
  · rw [report_line, report_line, report_fatal, report_fatal]
    intro number
    have marks := alike.mark number
    split
    · rw [Option.map_or, Option.map_or, marks, Option.map_some, Option.map_some, FatalFault.mark,
        FatalFault.mark, number]
    · exact marks

theorem Alike.fail (key : Key) : Alike (p.fail assembler key) (q.fail assembler key) :=
  (alike.report assembler key).invalidate

/-! ### Labels and words -/

theorem Alike.readLabel (column : Option Token) :
    Alike (p.readLabel assembler column) (q.readLabel assembler column) := by
  unfold Pass.readLabel
  split
  · exact alike
  · split
    · exact alike.report assembler _
    · split
      · exact alike.report assembler _
      · exact alike.mapLine _ (fun _ => rfl) fun _ => rfl

theorem Alike.defineLabel (label : Bytes) (location : Int) :
    Alike (p.defineLabel assembler label location) (q.defineLabel assembler label location) := by
  unfold Pass.defineLabel
  rw [alike.symbols]
  split
  · exact alike.withSymbols _
  · split
    · exact alike.withSymbols _
    · exact alike.report assembler _

theorem Alike.defineOwnLabel :
    Alike (p.defineOwnLabel assembler) (q.defineOwnLabel assembler) := by
  unfold Pass.defineOwnLabel
  rw [alike.label, alike.location]
  split
  · exact alike.defineLabel assembler _ _
  · exact alike

theorem Alike.occupy : Alike p.occupy q.occupy := by
  have location := alike.location
  have counter : ∀ context : Context, { context with location := context.location + 1 }.uncounted =
      { context.uncounted with location := context.uncounted.location + 1 } := fun _ => rfl
  have placed : ∀ (line : Line) (location : Int),
      { line with location := location, addressed := true }.bare =
        { line.bare with location := location, addressed := true } := fun _ _ => rfl
  refine ⟨?_, alike.symbols, ?_, alike.fatal, alike.mark⟩
  · simp only [Pass.occupy]
    rw [counter, counter, alike.context]
  · simp only [Pass.occupy]
    rw [placed, placed, alike.line, location]

theorem Alike.allocate {next : Pass → Pass}
    (same : ∀ {p q : Pass}, Alike p q → Alike (next p) (next q)) :
    Alike (p.allocate assembler next) (q.allocate assembler next) := by
  unfold Pass.allocate
  rw [alike.location]
  split
  · exact alike.report assembler _
  · exact same alike.occupy

/-! ### Operands and instructions -/

theorem Alike.readOperand {rest annotated : Bytes} (commented : Commented rest annotated) :
    (q.readOperand assembler annotated).1 = (p.readOperand assembler rest).1 ∧
      Commented (p.readOperand assembler rest).2.1 (q.readOperand assembler annotated).2.1 ∧
      Alike (p.readOperand assembler rest).2.2 (q.readOperand assembler annotated).2.2 := by
  unfold Pass.readOperand
  dsimp only
  rcases commented.next with ⟨token, after⟩ | ⟨void, comment, none, nothing⟩
  · rw [token]
    refine ⟨rfl, after, ?_⟩
    split
    · exact (alike.keepComment _ _).report assembler _
    · exact alike.keepComment _ _
  · have absent : Operand.ofToken (Token.next rest).1 = .absent := by
      rcases void with empty | comment
      · rw [Operand.ofToken, empty]
      · rw [Operand.ofToken, comment]
    have missing : Operand.ofToken (Token.next annotated).1 = .absent := by
      rw [Operand.ofToken, comment]
    rw [absent, missing, none, nothing]
    exact ⟨rfl, .same, alike.keepComment _ _⟩

theorem Alike.readTrailing {rest annotated : Bytes} (commented : Commented rest annotated) :
    Alike (p.readTrailing assembler rest) (q.readTrailing assembler annotated) := by
  unfold Pass.readTrailing
  dsimp only
  rcases commented.next with ⟨token, _⟩ | ⟨void, comment, _, _⟩
  · rw [token]
    split
    · exact alike
    · exact alike.setComment _ _
    · exact alike.report assembler _
  · rw [comment]
    rcases void with empty | comment
    · rw [empty]
      exact alike.setComment_right _
    · rw [comment]
      exact alike.setComment _ _

theorem Alike.finishLine {rest annotated : Bytes} (commented : Commented rest annotated) :
    Alike (p.finishLine assembler rest) (q.finishLine assembler annotated) := by
  have trailing := alike.readTrailing assembler commented
  have spoiled : ∀ line : Line, (line.addressed && line.has .serious && !line.isInvalidated) =
      (line.bare.addressed && line.bare.has .serious && !line.bare.isInvalidated) := fun _ => rfl
  unfold Pass.finishLine
  rw [alike.fatal]
  split
  · exact alike
  · dsimp only
    rw [spoiled, spoiled (q.readTrailing assembler annotated).line, trailing.line]
    split
    · exact trailing.invalidate
    · exact trailing

theorem Alike.substitute (instruction : Instruction) :
    q.substitute instruction = p.substitute instruction := by
  unfold Pass.substitute
  rw [alike.symbols]

theorem Alike.encodeLine (instruction : Instruction) :
    Alike (p.encodeLine assembler instruction) (q.encodeLine assembler instruction) := by
  unfold Pass.encodeLine
  split
  · exact alike.fail assembler _
  · split
    · exact alike.invalidate
    · have stated := alike.setStatement (.instruction (p.substitute instruction))
      dsimp only
      rw [alike.substitute]
      split
      · exact stated.setWord _
      · exact stated.fail assembler _

theorem Alike.readFunction (group : Group) {rest annotated : Bytes}
    (commented : Commented rest annotated) :
    (q.readFunction assembler group annotated).1 = (p.readFunction assembler group rest).1 ∧
      Commented (p.readFunction assembler group rest).2.1
        (q.readFunction assembler group annotated).2.1 ∧
      Alike (p.readFunction assembler group rest).2.2
        (q.readFunction assembler group annotated).2.2 := by
  unfold Pass.readFunction
  dsimp only
  rcases commented.next with ⟨token, after⟩ | ⟨void, comment, none, nothing⟩
  · rw [token]
    split
    · exact ⟨rfl, after, alike.setComment _ _⟩
    · obtain ⟨operand, later, read⟩ := alike.readOperand assembler after
      exact ⟨by rw [operand], later, read⟩
  · rw [if_pos comment, none, nothing]
    split
    · exact ⟨rfl, .same, alike.setComment _ _⟩
    · -- No function and no operand is what a comment in their place leaves too.
      rename_i filled
      have empty : (Token.next rest).1.kind = .empty := void.resolve_right filled
      rw [Token.text_of_empty empty]
      exact ⟨rfl, .same, alike.setComment_right _⟩

theorem Alike.readInstruction (group : Group) {rest annotated : Bytes}
    (commented : Commented rest annotated) :
    Commented (p.readInstruction assembler group rest).2
        (q.readInstruction assembler group annotated).2 ∧
      Alike (p.readInstruction assembler group rest).1
        (q.readInstruction assembler group annotated).1 := by
  obtain ⟨same, after, read⟩ := alike.readFunction assembler group commented
  refine ⟨after, ?_⟩
  unfold Pass.readInstruction
  dsimp only
  rw [same]
  exact ((read.setStatement _).defineOwnLabel assembler).allocate assembler
    fun alike => alike.encodeLine assembler _

/-! ### Directives -/

theorem Alike.ignoreLabel : Alike (p.ignoreLabel assembler) (q.ignoreLabel assembler) := by
  unfold Pass.ignoreLabel
  rw [alike.label]
  split
  · exact alike.report assembler _
  · exact alike

theorem Alike.beginProgram (name : Bytes) (load : Int) :
    Alike (p.beginProgram name load) (q.beginProgram name load) := by
  have begun : ∀ context : Context, { context with
      started := true, program := name, start := load, location := load }.uncounted =
      { context.uncounted with
        started := true, program := name, start := load, location := load } := fun _ => rfl
  have placed : ∀ line : Line, { line with location := load }.bare =
      { line.bare with location := load } := fun _ => rfl
  refine ⟨?_, ?_, ?_, alike.fatal, alike.mark⟩
  · simp only [Pass.beginProgram]
    rw [begun, begun, alike.context]
  · simp only [Pass.beginProgram, alike.symbols]
  · simp only [Pass.beginProgram]
    rw [placed, placed, alike.line]

theorem Alike.applyStart (operand : Operand) :
    Alike (p.applyStart assembler operand) (q.applyStart assembler operand) := by
  have started : q.context.started = p.context.started :=
    (congrArg Context.started alike.context :)
  unfold Pass.applyStart
  rw [started, alike.label]
  split
  · exact alike.report assembler _
  · split
    · split
      · exact alike.beginProgram _ _
      · exact alike.report assembler _
    · split
      · exact alike.beginProgram _ _
      · exact alike.report assembler _

theorem Alike.applyEnd (operand : Operand) :
    Alike (p.applyEnd assembler operand) (q.applyEnd assembler operand) := by
  have ignored := alike.ignoreLabel assembler
  have program : (q.ignoreLabel assembler).context.program =
      (p.ignoreLabel assembler).context.program :=
    (congrArg Context.program ignored.context :)
  have ended : ∀ context : Context, { context with ended := true }.uncounted =
      { context.uncounted with ended := true } := fun _ => rfl
  unfold Pass.applyEnd
  dsimp only
  rw [program]
  split
  · refine ⟨?_, ignored.symbols, ignored.line, ignored.fatal, ignored.mark⟩
    simp only [mapContext]
    rw [ended, ended, ignored.context]
  · exact ignored.report assembler _

theorem Alike.equate (label : Bytes) (directive : Directive) (operand : Operand)
    (found : Expression.Evaluator.Equate) :
    Alike (p.equate label directive operand found) (q.equate label directive operand found) := by
  have stated := alike.setStatement (.directive directive { operand with value := found.value })
  unfold Pass.equate
  dsimp only
  rw [stated.symbols, stated.location]
  exact stated.withSymbols _

theorem Alike.applyEquate (directive : Directive) (operand : Operand) :
    Alike (p.applyEquate assembler directive operand)
      (q.applyEquate assembler directive operand) := by
  have evaluated : ∀ label first second outcome,
      Alike ((p.note assembler first).equateBy assembler label directive operand outcome)
        ((q.note assembler second).equateBy assembler label directive operand outcome) := by
    intro label first second outcome
    unfold equateBy
    split
    · exact (alike.note assembler first second).equate _ _ _ _
    · exact (alike.note assembler first second).report assembler _
  unfold Pass.applyEquate
  rw [alike.label, alike.symbols]
  split
  · exact alike.report assembler _
  · split
    · exact alike.report assembler _
    · split
      · split
        · exact alike.equate _ _ _ _
        · exact alike.report assembler _
      · rw [alike.evaluator, alike.location]
        split
        · exact evaluated _ _ _ _
        · exact evaluated _ _ _ _
        · exact alike
        · exact alike.report assembler _

theorem Alike.applyEntry (operand : Operand) :
    Alike (p.applyEntry assembler operand) (q.applyEntry assembler operand) := by
  have ignored := alike.ignoreLabel assembler
  unfold Pass.applyEntry
  dsimp only
  rw [ignored.symbols]
  split
  · split
    · exact ignored.withSymbols _
    · split
      · exact ignored.withSymbols _
      · exact ignored
      · exact ignored.report assembler _
  · exact ignored.report assembler _

theorem Alike.applyExternal (operand : Operand) :
    Alike (p.applyExternal assembler operand) (q.applyExternal assembler operand) := by
  have ignored := alike.ignoreLabel assembler
  unfold Pass.applyExternal
  dsimp only
  rw [ignored.symbols]
  split
  · split
    · exact ignored.report assembler _
    · exact ignored.withSymbols _
  · exact ignored.report assembler _

theorem Alike.moveTo (target : Int) :
    Alike { p with
        context := { p.context with location := target }
        line := { p.line with location := target } }
      { q with
        context := { q.context with location := target }
        line := { q.line with location := target } } := by
  have counter : ∀ context : Context, { context with location := target }.uncounted =
      { context.uncounted with location := target } := fun _ => rfl
  have placed : ∀ line : Line, { line with location := target }.bare =
      { line.bare with location := target } := fun _ => rfl
  refine ⟨?_, alike.symbols, ?_, alike.fatal, alike.mark⟩
  · rw [counter, counter, alike.context]
  · rw [placed, placed, alike.line]

theorem Alike.applyReset (operand : Operand) :
    Alike (p.applyReset assembler operand) (q.applyReset assembler operand) := by
  have target : q.resetTarget? operand = p.resetTarget? operand := by
    unfold Pass.resetTarget?
    rw [alike.symbols]
  unfold Pass.applyReset
  rw [alike.label, target, alike.location]
  split
  · exact alike.report assembler _
  · split
    · exact alike.report assembler _
    · split
      · exact alike.report assembler _
      · exact ((alike.defineLabel assembler _ _).setStatement _).moveTo _

theorem Alike.applyData (operand : Operand) :
    Alike (p.applyData assembler operand) (q.applyData assembler operand) := by
  refine (alike.defineOwnLabel assembler).allocate assembler fun alike => ?_
  split
  · exact alike.setWord _
  · split
    · exact alike
    · exact alike.report assembler _

theorem Alike.applyConstant (operand : Operand) :
    Alike (p.applyConstant assembler operand) (q.applyConstant assembler operand) := by
  refine (alike.defineOwnLabel assembler).allocate assembler fun alike => ?_
  split
  · exact alike.report assembler _
  · exact alike

theorem Alike.applyIdle (operand : Operand) :
    Alike (p.applyIdle assembler operand) (q.applyIdle assembler operand) := by
  refine (alike.defineOwnLabel assembler).allocate assembler fun alike => ?_
  dsimp only
  split
  · exact alike.setWord _
  · exact (alike.setWord _).report assembler _

theorem Alike.applyDirective (directive : Directive) (operand : Operand) :
    Alike (p.applyDirective assembler directive operand)
      (q.applyDirective assembler directive operand) := by
  cases directive with
  | start => exact alike.applyStart assembler operand
  | finish => exact alike.applyEnd assembler operand
  | equ => exact alike.applyEquate assembler _ operand
  | eque => exact alike.applyEquate assembler _ operand
  | adc => exact alike.applyConstant assembler operand
  | adce => exact alike.applyConstant assembler operand
  | entry => exact alike.applyEntry assembler operand
  | extrn => exact alike.applyExternal assembler operand
  | reset => exact alike.applyReset assembler operand
  | dat => exact alike.applyData assembler operand
  | nop => exact alike.applyIdle assembler operand

theorem Alike.readDirective (directive : Directive) {rest annotated : Bytes}
    (commented : Commented rest annotated) :
    Commented (p.readDirective assembler directive rest).2
        (q.readDirective assembler directive annotated).2 ∧
      Alike (p.readDirective assembler directive rest).1
        (q.readDirective assembler directive annotated).1 := by
  obtain ⟨same, after, read⟩ := alike.readOperand assembler commented
  refine ⟨after, ?_⟩
  unfold Pass.readDirective
  dsimp only
  rw [same]
  exact (read.setStatement _).applyDirective assembler directive _

/-! ### Whole lines -/

theorem Alike.readUnknown {columns annotated : Columns} (label : annotated.label = columns.label)
    (command : annotated.command = columns.command ∨
      columns.command.isVoid ∧ annotated.command.kind = .comment) :
    Alike (p.readUnknown assembler columns) (q.readUnknown assembler annotated) := by
  have missing : (annotated.command.kind = .empty ∨ annotated.command.kind = .comment) ↔
      (columns.command.kind = .empty ∨ columns.command.kind = .comment) := by
    rcases command with same | ⟨void, comment⟩
    · rw [same]
    · exact ⟨fun _ => void, fun _ => Or.inr comment⟩
  have labelled := (alike.keepComment columns.command annotated.command).defineOwnLabel assembler
  unfold Pass.readUnknown
  dsimp only
  generalize Pass.defineOwnLabel (ite (columns.command.kind = .comment) _ _) assembler = first
    at labelled ⊢
  generalize Pass.defineOwnLabel (ite (annotated.command.kind = .comment) _ _) assembler = second
    at labelled ⊢
  simp only [labelled.label, label, missing]
  split
  · exact labelled
  · exact labelled.report assembler _

theorem Alike.readCommand (commented : Commented p.line.source q.line.source) :
    Alike (p.readCommand assembler) (q.readCommand assembler) := by
  obtain ⟨label, command⟩ := commented.columns assembler
  have labelled := alike.readLabel assembler (assembler.columns p.line.source).label
  have unknown : (assembler.columns q.line.source).command =
        (assembler.columns p.line.source).command ∨
      (assembler.columns p.line.source).command.isVoid ∧
        (assembler.columns q.line.source).command.kind = .comment :=
    command.imp_left And.left
  rcases command with ⟨same, rest⟩ | ⟨void, comment⟩
  · cases found : assembler.command? (assembler.columns p.line.source).command with
    | none =>
      rw [readCommand_unknown rfl found, readCommand_unknown rfl (same ▸ found), label]
      exact labelled.readUnknown assembler label unknown
    | some command =>
      cases command with
      | group group =>
        rw [readCommand_group rfl found, readCommand_group rfl (same ▸ found), label]
        obtain ⟨after, read⟩ := labelled.readInstruction assembler group rest
        exact read.finishLine assembler after
      | directive directive =>
        rw [readCommand_directive rfl found, readCommand_directive rfl (same ▸ found), label]
        obtain ⟨after, read⟩ := labelled.readDirective assembler directive rest
        exact read.finishLine assembler after
  · have first : assembler.command? (assembler.columns p.line.source).command = none := by
      rw [Assembler.command?, if_neg]
      rcases void with empty | comment
      · simp [empty]
      · simp [comment]
    have second : assembler.command? (assembler.columns q.line.source).command = none := by
      rw [Assembler.command?, if_neg (by simp [comment])]
    rw [readCommand_unknown rfl first, readCommand_unknown rfl second, label]
    exact labelled.readUnknown assembler label unknown

/-- Two lines of which one may have a comment after it are read alike, if both or none are to be the
first line. -/
theorem Alike.readLine (commented : Commented p.line.source q.line.source)
    (first : q.line.number = 1 ∧ !assembler.isStart q.line.source ↔
      p.line.number = 1 ∧ !assembler.isStart p.line.source) :
    Alike (p.readLine assembler) (q.readLine assembler) := by
  have ended : q.context.ended = p.context.ended :=
    (congrArg Context.ended alike.context :)
  unfold Pass.readLine
  simp only [first, ended, commented.isBlank]
  split
  · exact alike.report assembler _
  · split
    · exact alike.report assembler _
    · split
      · exact alike.setComment _ _
      · exact alike.readCommand assembler commented

end Pass

/-- Two readings with the same program so far start any two lines alike. -/
theorem Reading.fresh_alike {first second : Reading}
    (context : second.context.uncounted = first.context.uncounted)
    (symbols : second.symbols = first.symbols) (running : first.fatal = none)
    (open_ : second.fatal = none) (numbered other : Bytes × Nat) :
    Pass.Alike (first.fresh numbered) (second.fresh other) := by
  have location : second.context.location = first.context.location :=
    (congrArg Context.location context :)
  refine ⟨context, symbols, ?_, ?_, ?_⟩
  · simp only [Reading.fresh, pass, Line.unread, Line.bare, location]
  · simp only [Reading.fresh, pass, running, open_]
  · simp only [Reading.fresh, pass, running, open_, implies_true]

end WordAssembler

import WordAssembler.Proofs.Frame
import WordAssembler.Proofs.Symbols

/-!
Directives that are rejected. A directive without a word looks at its label and its operand before
it does anything, so it either changes nothing, or finds nothing serious. A line with such a
directive that has a serious diagnostic, and not for its label column, leaves the symbols and the
state of the assembly as they were, but for the counts.
-/

set_option autoImplicit false

namespace WordAssembler

/-- A directive that declares a symbol or moves the location counter, or START of a program that has
begun. -/
def Directive.declares (started : Bool) : Directive → Bool
  | .equ | .eque | .entry | .extrn | .reset => true
  | .start => started
  | _ => false

theorem Context.eq_of_uncounted {first second : Context}
    (same : second.uncounted = first.uncounted) :
    second = { first with errors := second.errors, warnings := second.warnings } := by
  simp only [uncounted, Context.mk.injEq] at same
  obtain ⟨location, start, program, started, ended, fatal, emitted, _⟩ := same
  simp only [← location, ← start, ← program, ← started, ← ended, ← fatal, ← emitted]

namespace Pass

/-- A directive is rejected and changes nothing, or is accepted with a well-formed operand and finds
nothing serious. -/
inductive Decides (p : Pass) (operand : Operand) (q : Pass) : Prop
  | rejected (same : q.frame = p.frame)
  | accepted (wellFormed : operand.kind ≠ .malformed)
      (quiet : q.line.has .serious = p.line.has .serious)

variable {p q r : Pass} (assembler : Assembler) {operand : Operand}

/-- Work that moves nothing and finds nothing serious does not count. -/
theorem Decides.after (frame : q.frame = p.frame)
    (quiet : q.line.has .serious = p.line.has .serious) (decides : q.Decides operand r) :
    p.Decides operand r := by
  cases decides with
  | rejected same => exact .rejected (same.trans frame)
  | accepted wellFormed kept => exact .accepted wellFormed (kept.trans quiet)

theorem Decides.report {key : Key} (mild : key.severity ≠ .fatal) :
    p.Decides operand (p.report assembler key) :=
  .rejected (p.report_frame assembler mild)

theorem report_has {key : Key} (mild : key.severity = .warning) :
    (p.report assembler key).line.has .serious = p.line.has .serious := by
  simp [Line.has, mild]

variable (p)

theorem ignoreLabel_frame : (p.ignoreLabel assembler).frame = p.frame := by
  unfold ignoreLabel
  split
  · exact p.report_frame assembler (by decide)
  · rfl

theorem ignoreLabel_has :
    (p.ignoreLabel assembler).line.has .serious = p.line.has .serious := by
  unfold ignoreLabel
  split
  · exact report_has assembler rfl
  · rfl

theorem note_frame (entry : Bytes) : (p.note assembler entry).frame = p.frame := by
  rw [frame, note_context, note_symbols, note_line, note_fatal, frame]

/-! ### Directives -/

theorem applyEquate_decides (directive : Directive) (operand : Operand) :
    p.Decides operand (p.applyEquate assembler directive operand) := by
  have evaluated : ∀ entry label, operand.kind ≠ .malformed → p.Decides operand
      ((p.note assembler entry).equateBy assembler label directive operand
        (p.evaluator.equate operand.text p.context.location directive.operatorLimit)) := by
    intro entry label wellFormed
    refine .after (p.note_frame assembler entry) (by rw [note_line]) ?_
    unfold equateBy
    split
    · exact .accepted wellFormed rfl
    · rename_i fault failed
      exact .report assembler (by simp [Expression.Evaluator.equate_serious failed])
  unfold applyEquate
  split
  · exact .report assembler (by decide)
  · split
    · exact .report assembler (by decide)
    · split
      · rename_i numeric
        split
        · refine .accepted ?_ rfl
          intro malformed
          simp [malformed, Operand.Kind.isNumeric, Operand.Kind.isLiteral] at numeric
        · exact .report assembler (by decide)
      · split
        · rename_i symbol
          exact evaluated _ _ (by simp [symbol])
        · rename_i expression
          exact evaluated _ _ (by simp [expression])
        · exact .rejected rfl
        · exact .report assembler (by decide)

theorem applyEntry_decides (operand : Operand) :
    p.Decides operand (p.applyEntry assembler operand) := by
  refine .after (p.ignoreLabel_frame assembler) (p.ignoreLabel_has assembler) ?_
  unfold applyEntry
  dsimp only
  split
  · rename_i symbol
    have wellFormed : operand.kind ≠ .malformed := by simp [symbol]
    split
    · exact .accepted wellFormed rfl
    · split
      · exact .accepted wellFormed rfl
      · exact .accepted wellFormed rfl
      · exact .report assembler (by decide)
  · exact .report assembler (by decide)

theorem applyExternal_decides (operand : Operand) :
    p.Decides operand (p.applyExternal assembler operand) := by
  refine .after (p.ignoreLabel_frame assembler) (p.ignoreLabel_has assembler) ?_
  unfold applyExternal
  dsimp only
  split
  · rename_i symbol
    split
    · exact .report assembler (by decide)
    · exact .accepted (by simp [symbol]) rfl
  · exact .report assembler (by decide)

theorem defineLabel_has (label : Bytes) (location : Int) :
    (p.defineLabel assembler label location).line.has .serious = p.line.has .serious := by
  rcases defineLabel_cases p assembler label location with ⟨symbols, defined, _⟩ | kept
  · rw [defined]
  · rw [kept]
    exact report_has assembler rfl

theorem applyReset_decides (operand : Operand) :
    p.Decides operand (p.applyReset assembler operand) := by
  unfold applyReset
  split
  · exact .report assembler (by decide)
  · split
    · exact .report assembler (by decide)
    · rename_i target found
      split
      · exact .report assembler (by decide)
      · refine .accepted ?_ (p.defineLabel_has assembler _ _)
        intro malformed
        simp [Pass.resetTarget?, malformed, Operand.Kind.isNumeric, Operand.Kind.isLiteral]
          at found

/-- START of a program that has begun is rejected. -/
theorem applyStart_decides (operand : Operand) (started : p.context.started = true) :
    p.Decides operand (p.applyStart assembler operand) := by
  rw [applyStart, if_pos started]
  exact .report assembler (by decide)

theorem applyDirective_decides {directive : Directive} (operand : Operand)
    (declares : directive.declares p.context.started = true) :
    p.Decides operand (p.applyDirective assembler directive operand) := by
  cases directive with
  | start => exact p.applyStart_decides assembler operand declares
  | equ => exact p.applyEquate_decides assembler _ operand
  | eque => exact p.applyEquate_decides assembler _ operand
  | entry => exact p.applyEntry_decides assembler operand
  | extrn => exact p.applyExternal_decides assembler operand
  | reset => exact p.applyReset_decides assembler operand
  | finish => cases declares
  | adc => cases declares
  | adce => cases declares
  | dat => cases declares
  | nop => cases declares

/-! ### Lines -/

variable {p}

/-- Of a line without diagnostics for its label, a directive with something serious about it is
rejected. -/
theorem readDirective_rejected {directive : Directive} (rest : Bytes)
    (declares : directive.declares p.context.started = true)
    (quiet : p.line.has .serious = false)
    (serious : (p.readDirective assembler directive rest).1.line.has .serious = true) :
    (p.readDirective assembler directive rest).1.frame = p.frame := by
  obtain ⟨added, remarks, silent⟩ := readOperand_remarks p assembler rest
  have read := p.readOperand_frame assembler rest
  let stated := (p.readOperand assembler rest).2.2.setStatement
    (.directive directive (p.readOperand assembler rest).1)
  have started : stated.context.started = p.context.started := remarks.stays.started
  have decides : stated.Decides (p.readOperand assembler rest).1
      (p.readDirective assembler directive rest).1 :=
    stated.applyDirective_decides assembler _ (started ▸ declares)
  cases decides with
  | rejected same => exact same.trans read
  | accepted wellFormed kept =>
    obtain ⟨comment, line⟩ := remarks.line
    have clean : stated.line.has .serious = p.line.has .serious := by
      simp [stated, Line.has, line, silent wellFormed]
    rw [kept, clean, quiet] at serious
    cases serious

/-- What follows the operand is not serious. -/
theorem finishLine_has (rest : Bytes) :
    (p.finishLine assembler rest).line.has .serious = p.line.has .serious := by
  obtain ⟨added, remarks, warnings⟩ := readTrailing_remarks p assembler rest
  obtain ⟨comment, line⟩ := remarks.line
  have mild : added.any (·.key.severity == .serious) = false := by
    simp only [List.any_eq_false, beq_iff_eq]
    intro diagnostic member serious
    rw [warnings diagnostic member] at serious
    cases serious
  have kept : (p.readTrailing assembler rest).line.has .serious = p.line.has .serious := by
    simp [line, Line.has, mild]
  unfold finishLine
  dsimp only
  split
  · rfl
  · split
    · exact kept
    · exact kept

/-- A label column that is absent or holds a label says nothing. -/
theorem readLabel_of_accepted (unnamed : p.line.label = none)
    (column : (assembler.columns p.line.source).label = none ∨
      (assembler.label? p.line.source).isSome = true) :
    p.readLabel assembler (assembler.columns p.line.source).label =
      { p with line := { p.line with label := assembler.label? p.line.source } } := by
  rcases readLabel_cases p assembler (assembler.columns p.line.source).label unnamed with
    read | ⟨rejected, key, _, reported⟩
  · exact read
  · rcases column with absent | accepted
    · simp [Assembler.label?, absent, readLabel, acceptedLabel, ← unnamed]
    · simp [Assembler.label?, rejected] at accepted

theorem readLine_rejected {directive : Directive} {operand : Operand} (fresh : p.Fresh)
    (said : assembler.directive? p.line.source = some (directive, operand))
    (declares : directive.declares p.context.started = true)
    (column : (assembler.columns p.line.source).label = none ∨
      (assembler.label? p.line.source).isSome = true)
    (serious : (p.readLine assembler).line.has .serious = true) :
    (p.readLine assembler).symbols = p.symbols ∧
      (p.readLine assembler).context.uncounted = p.context.uncounted := by
  rcases readLine_cases p assembler with ⟨key, fatal, refused⟩ | blank | ⟨_, _, command⟩
  · rw [refused] at serious
    simp [Line.has, fresh.quiet, fatal] at serious
  · rw [blank]
    exact ⟨rfl, rfl⟩
  · obtain ⟨known, _⟩ := Assembler.directive?_eq_some said
    rw [command, readCommand_directive rfl known,
      readLabel_of_accepted assembler fresh.unnamed column] at serious ⊢
    generalize labelled :
      { p with line := { p.line with label := assembler.label? p.line.source } } = q at serious ⊢
    have quiet : q.line.has .serious = false := by simp [← labelled, Line.has, fresh.quiet]
    have symbols : q.symbols = p.symbols := by rw [← labelled]
    have context : q.context = p.context := by rw [← labelled]
    rw [finishLine_has] at serious
    rw [← context] at declares
    have rejected := readDirective_rejected assembler _ declares quiet serious
    obtain ⟨uncounted, kept, _⟩ :=
      frame_eq_iff.1 ((finishLine_frame _ assembler _).trans rejected)
    exact ⟨kept.trans symbols, uncounted.trans (congrArg Context.uncounted context)⟩

end Pass

/-! ### Sources -/

/-- A source line with a directive that has something serious about it, and not for its label
column, changes nothing but the counts. -/
theorem Reading.rejected_unchanged (assembler : Assembler) (earlier : List Bytes) (source : Bytes)
    (directive : Directive) (operand : Operand) (line : Line)
    (said : assembler.directive? (dropTrailing Lines.isCarriageReturn source) =
      some (directive, operand))
    (declares : directive.declares (ofLines assembler earlier).context.started = true)
    (column : (assembler.columns (dropTrailing Lines.isCarriageReturn source)).label = none ∨
      (assembler.label? (dropTrailing Lines.isCarriageReturn source)).isSome = true)
    (read : (ofLines assembler (earlier ++ [source])).lines =
      line :: (ofLines assembler earlier).lines)
    (serious : line.has .serious = true) :
    (ofLines assembler (earlier ++ [source])).symbols = (ofLines assembler earlier).symbols ∧
      (ofLines assembler (earlier ++ [source])).context =
        { (ofLines assembler earlier).context with
          errors := (ofLines assembler (earlier ++ [source])).context.errors
          warnings := (ofLines assembler (earlier ++ [source])).context.warnings } := by
  rw [ofLines_concat] at read ⊢
  cases halted : (ofLines assembler earlier).fatal.isSome with
  | true =>
    rw [add_of_halted assembler halted]
    exact ⟨rfl, rfl⟩
  | false =>
    have running : (ofLines assembler earlier).fatal = none := by simpa using halted
    rw [add_lines running] at read
    obtain rfl := (List.cons.inj read).1
    rw [add_symbols running, add_context running]
    obtain ⟨symbols, context⟩ := Pass.readLine_rejected assembler
      (fresh_isFresh _ (source, earlier.length + 1)) said declares column serious
    exact ⟨symbols, Context.eq_of_uncounted context⟩

/-- Lines that declare an entry, and leave the location counter after the first word. -/
def entryLines : List Bytes := [ascii "PROG START 16", ascii " ENTRY BB", ascii "AA NOP"]

/-- A RESET to an address behind the location counter, whose label is the entry. -/
def backwardLine : Bytes := ascii "BB RESET 4"

theorem Reading.rejected_unchanged_backwardLine :
    (∃ line, (ofLines {} (entryLines ++ [backwardLine])).lines =
        line :: (ofLines {} entryLines).lines ∧ line.has .serious = true) ∧
      (ofLines {} (entryLines ++ [backwardLine])).symbols = (ofLines {} entryLines).symbols ∧
      (ofLines {} (entryLines ++ [backwardLine])).context.location = 17 := by
  have running : (ofLines {} entryLines).fatal = none := by decide +kernel
  have read : (ofLines {} (entryLines ++ [backwardLine])).lines =
      ((ofLines {} entryLines).stepped {} (backwardLine, 4)).line ::
        (ofLines {} entryLines).lines := by
    rw [ofLines_concat]
    exact add_lines running _
  have serious : ((ofLines {} entryLines).stepped {} (backwardLine, 4)).line.has .serious =
      true := by decide +kernel
  obtain ⟨symbols, context⟩ := Reading.rejected_unchanged {} entryLines backwardLine .reset
    ⟨ascii "4", .number, 4⟩ _ (by decide +kernel) (by decide +kernel)
    (Or.inr (by decide +kernel)) read serious
  refine ⟨⟨_, read, serious⟩, symbols, ?_⟩
  rw [context]
  decide +kernel

end WordAssembler

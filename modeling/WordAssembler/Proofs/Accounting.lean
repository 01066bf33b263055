import WordAssembler.Proofs.FirstPass

/-!
Accounting of the first pass. Whatever is read, the errors counted on a line are the fatal and
serious diagnostics that it got, and the pass has a fault just when a fatal one is among them.
-/

set_option autoImplicit false

namespace WordAssembler

namespace Pass

variable (p : Pass) (assembler : Assembler)

theorem readLabel_follows (column : Option Token) : Follows p (p.readLabel assembler column) := by
  unfold readLabel
  split
  · exact .refl p
  · split
    · exact report_follows p assembler _
    · split
      · exact report_follows p assembler _
      · exact .silent rfl

theorem defineLabel_follows (label : Bytes) (location : Int) :
    Follows p (p.defineLabel assembler label location) := by
  rcases defineLabel_cases p assembler label location with ⟨symbols, defined, _⟩ | kept
  · rw [defined]
    exact .silent rfl
  · rw [kept]
    exact report_follows p assembler _

theorem defineOwnLabel_follows : Follows p (p.defineOwnLabel assembler) := by
  unfold defineOwnLabel
  split
  · exact defineLabel_follows p assembler _ _
  · exact .refl p

theorem allocate_follows (next : Pass → Pass) (follows : ∀ q, Follows q (next q)) :
    Follows p (p.allocate assembler next) := by
  unfold allocate
  split
  · exact report_follows p assembler _
  · have occupied : Follows p p.occupy := .silent rfl
    exact occupied.trans (follows _)

theorem readOperand_follows (rest : Bytes) : Follows p (p.readOperand assembler rest).2.2 := by
  obtain ⟨_, remarks, _⟩ := readOperand_remarks p assembler rest
  exact remarks.follows

theorem readFunction_follows (group : Group) (rest : Bytes) :
    Follows p (p.readFunction assembler group rest).2.2 := by
  obtain ⟨_, remarks⟩ := readFunction_remarks p assembler group rest
  exact remarks.follows

theorem ignoreLabel_follows : Follows p (p.ignoreLabel assembler) := by
  obtain ⟨_, remarks⟩ := ignoreLabel_remarks p assembler
  exact remarks.follows

theorem note_follows (entry : Bytes) : Follows p (p.note assembler entry) :=
  .silent (by simp [account])

theorem finishLine_follows (rest : Bytes) : Follows p (p.finishLine assembler rest) := by
  obtain ⟨_, remarks, _⟩ := readTrailing_remarks p assembler rest
  unfold finishLine
  dsimp only
  split
  · exact .refl p
  · split
    · exact remarks.follows.trans (.silent rfl)
    · exact remarks.follows

theorem encodeLine_follows (instruction : Instruction) :
    Follows p (p.encodeLine assembler instruction) := by
  unfold encodeLine
  split
  · exact fail_follows p assembler _
  · split
    · exact .silent rfl
    · dsimp only
      have stated : Follows p (p.setStatement (.instruction (p.substitute instruction))) :=
        .silent rfl
      split
      · exact stated.trans (.silent rfl)
      · exact stated.trans (fail_follows _ assembler _)

theorem readInstruction_follows (group : Group) (rest : Bytes) :
    Follows p (p.readInstruction assembler group rest).1 := by
  have stated : Follows (p.readFunction assembler group rest).2.2
      ((p.readFunction assembler group rest).2.2.setStatement
        (.instruction (p.readFunction assembler group rest).1)) :=
    .silent rfl
  refine (readFunction_follows p assembler group rest).trans (stated.trans ?_)
  refine (defineOwnLabel_follows _ assembler).trans ?_
  exact allocate_follows _ assembler _ fun q => encodeLine_follows q assembler _

theorem applyStart_follows (operand : Operand) : Follows p (p.applyStart assembler operand) := by
  unfold applyStart
  split
  · exact report_follows p assembler _
  · split <;> split
    · exact .silent rfl
    · exact report_follows p assembler _
    · exact .silent rfl
    · exact report_follows p assembler _

theorem applyEnd_follows (operand : Operand) : Follows p (p.applyEnd assembler operand) := by
  refine (ignoreLabel_follows p assembler).trans ?_
  unfold applyEnd
  dsimp only
  split
  · exact .silent rfl
  · exact report_follows _ assembler _

theorem applyEquate_follows (directive : Directive) (operand : Operand) :
    Follows p (p.applyEquate assembler directive operand) := by
  have equated : ∀ (q : Pass) (label : Bytes) (found : Expression.Evaluator.Equate),
      Follows q (q.equate label directive operand found) :=
    fun _ _ _ => .silent rfl
  have evaluated : ∀ (entry label : Bytes)
      (outcome : Except Expression.Evaluator.EquateFault Expression.Evaluator.Equate),
      Follows p ((p.note assembler entry).equateBy assembler label directive operand outcome) := by
    intro entry label outcome
    refine (note_follows p assembler entry).trans ?_
    unfold equateBy
    split
    · exact equated _ _ _
    · exact report_follows _ assembler _
  unfold applyEquate
  split
  · exact report_follows p assembler _
  · split
    · exact report_follows p assembler _
    · split
      · split
        · exact equated p _ _
        · exact report_follows p assembler _
      · split
        · exact evaluated _ _ _
        · exact evaluated _ _ _
        · exact .refl p
        · exact report_follows p assembler _

theorem applyEntry_follows (operand : Operand) : Follows p (p.applyEntry assembler operand) := by
  refine (ignoreLabel_follows p assembler).trans ?_
  unfold applyEntry
  dsimp only
  split
  · split
    · exact .silent rfl
    · split
      · exact .silent rfl
      · exact .refl _
      · exact report_follows _ assembler _
  · exact report_follows _ assembler _

theorem applyExternal_follows (operand : Operand) :
    Follows p (p.applyExternal assembler operand) := by
  refine (ignoreLabel_follows p assembler).trans ?_
  unfold applyExternal
  dsimp only
  split
  · split
    · exact report_follows _ assembler _
    · exact .silent rfl
  · exact report_follows _ assembler _

theorem applyReset_follows (operand : Operand) : Follows p (p.applyReset assembler operand) := by
  unfold applyReset
  split
  · exact report_follows p assembler _
  · split
    · exact report_follows p assembler _
    · split
      · exact report_follows p assembler _
      · exact (defineLabel_follows p assembler _ _).trans (.silent rfl)

theorem applyData_follows (operand : Operand) : Follows p (p.applyData assembler operand) := by
  refine (defineOwnLabel_follows p assembler).trans (allocate_follows _ assembler _ fun q => ?_)
  split
  · exact .silent rfl
  · split
    · exact .refl q
    · exact report_follows q assembler _

theorem applyConstant_follows (operand : Operand) :
    Follows p (p.applyConstant assembler operand) := by
  refine (defineOwnLabel_follows p assembler).trans (allocate_follows _ assembler _ fun q => ?_)
  split
  · exact report_follows q assembler _
  · exact .refl q

theorem applyIdle_follows (operand : Operand) : Follows p (p.applyIdle assembler operand) := by
  refine (defineOwnLabel_follows p assembler).trans (allocate_follows _ assembler _ fun q => ?_)
  have idle : Follows q (q.setWord Line.idleWord) := .silent rfl
  dsimp only
  split
  · exact idle
  · exact idle.trans (report_follows _ assembler _)

theorem applyDirective_follows (directive : Directive) (operand : Operand) :
    Follows p (p.applyDirective assembler directive operand) := by
  cases directive with
  | start => exact applyStart_follows p assembler operand
  | finish => exact applyEnd_follows p assembler operand
  | equ => exact applyEquate_follows p assembler _ operand
  | eque => exact applyEquate_follows p assembler _ operand
  | adc => exact applyConstant_follows p assembler operand
  | adce => exact applyConstant_follows p assembler operand
  | entry => exact applyEntry_follows p assembler operand
  | extrn => exact applyExternal_follows p assembler operand
  | reset => exact applyReset_follows p assembler operand
  | dat => exact applyData_follows p assembler operand
  | nop => exact applyIdle_follows p assembler operand

theorem readDirective_follows (directive : Directive) (rest : Bytes) :
    Follows p (p.readDirective assembler directive rest).1 := by
  have stated : Follows (p.readOperand assembler rest).2.2
      ((p.readOperand assembler rest).2.2.setStatement
        (.directive directive (p.readOperand assembler rest).1)) :=
    .silent rfl
  exact (readOperand_follows p assembler rest).trans
    (stated.trans (applyDirective_follows _ assembler _ _))

theorem readUnknown_follows (columns : Columns) : Follows p (p.readUnknown assembler columns) := by
  have commented : Follows p (if columns.command.kind = .comment then
      p.setComment (some columns.command.text) else p) := by
    split
    · exact (setComment_remarks p _).follows
    · exact .refl p
  refine (commented.trans (defineOwnLabel_follows _ assembler)).trans ?_
  generalize labelled : (if columns.command.kind = .comment then
    p.setComment (some columns.command.text) else p).defineOwnLabel assembler = q
  unfold readUnknown
  dsimp only
  rw [labelled]
  split
  · exact .refl q
  · exact report_follows q assembler _

theorem readCommand_follows : Follows p (p.readCommand assembler) := by
  refine (readLabel_follows p assembler (assembler.columns p.line.source).label).trans ?_
  unfold readCommand
  dsimp only
  split
  · exact (readInstruction_follows _ assembler _ _).trans (finishLine_follows _ assembler _)
  · exact (readDirective_follows _ assembler _ _).trans (finishLine_follows _ assembler _)
  · exact readUnknown_follows _ assembler _

/-- Reading a line only reports, besides what it does to the program. -/
theorem readLine_follows : Follows p (p.readLine assembler) := by
  rcases readLine_cases p assembler with ⟨key, _, refused⟩ | blank | ⟨_, _, command⟩
  · rw [refused]
    exact report_follows p assembler _
  · rw [blank]
    exact (setComment_remarks p _).follows
  · rw [command]
    exact readCommand_follows p assembler

end Pass

end WordAssembler

import WordAssembler.Proofs.Words

/-!
What a line says after the first pass. A line that says a directive was read as that directive, and
the program begins only at a line that says START.
-/

set_option autoImplicit false

namespace WordAssembler

namespace Pass

/-! ### Work that says nothing -/

/-- One pass is another after work that keeps what the line says, and begins no program. -/
structure Stays (p q : Pass) : Prop where
  statement : q.line.statement = p.line.statement
  started : q.context.started = p.context.started

theorem Stays.refl (p : Pass) : Stays p p := ⟨rfl, rfl⟩

theorem Stays.trans {p q r : Pass} (left : Stays p q) (right : Stays q r) : Stays p r :=
  ⟨right.statement.trans left.statement, right.started.trans left.started⟩

theorem Remarks.stays {p q : Pass} {added : List Diagnostic} (remarks : Remarks p q added) :
    Stays p q := by
  obtain ⟨comment, line⟩ := remarks.line
  exact ⟨by rw [line], remarks.settles.program.started⟩

variable (p : Pass) (assembler : Assembler)

theorem report_stays (key : Key) : Stays p (p.report assembler key) :=
  (report_remarks p assembler key).stays

theorem ignoreLabel_stays : Stays p (p.ignoreLabel assembler) := by
  obtain ⟨added, remarks⟩ := ignoreLabel_remarks p assembler
  exact remarks.stays

theorem readLabel_stays (column : Option Token) : Stays p (p.readLabel assembler column) := by
  unfold readLabel
  split
  · exact .refl p
  · split
    · exact report_stays p assembler _
    · split
      · exact report_stays p assembler _
      · exact ⟨rfl, rfl⟩

theorem defineLabel_stays (label : Bytes) (location : Int) :
    Stays p (p.defineLabel assembler label location) := by
  rcases defineLabel_cases p assembler label location with ⟨symbols, defined, _⟩ | kept
  · rw [defined]
    exact ⟨rfl, rfl⟩
  · rw [kept]
    exact report_stays p assembler _

theorem defineOwnLabel_stays : Stays p (p.defineOwnLabel assembler) := by
  unfold defineOwnLabel
  split
  · exact defineLabel_stays p assembler _ _
  · exact .refl p

/-- A line may be given a word, and work on the word may follow. -/
theorem allocate_stays {next : Pass → Pass} (stays : ∀ q, Stays q (next q)) :
    Stays p ((p.defineOwnLabel assembler).allocate assembler next) := by
  refine (defineOwnLabel_stays p assembler).trans ?_
  unfold allocate
  split
  · exact report_stays _ assembler _
  · have occupied : Stays (p.defineOwnLabel assembler) (p.defineOwnLabel assembler).occupy :=
      ⟨rfl, rfl⟩
    exact occupied.trans (stays _)

/-! ### Directives -/

section Directive

variable {directive : Directive} {operand : Operand}
  (stated : p.line.statement = some (.directive directive operand))
include stated

theorem Stays.of_stated {q : Pass} (stays : Stays p q) :
    ∃ valued, Stays (p.setStatement (.directive directive valued)) q :=
  ⟨operand, stays.statement.trans stated, stays.started⟩

theorem applyEquate_stays : ∃ valued,
    Stays (p.setStatement (.directive directive valued))
      (p.applyEquate assembler directive operand) := by
  have reported : ∀ key, ∃ valued,
      Stays (p.setStatement (.directive directive valued)) (p.report assembler key) :=
    fun key => (report_stays p assembler key).of_stated p stated
  have evaluated : ∀ (entry label : Bytes)
      (outcome : Except Expression.Evaluator.EquateFault Expression.Evaluator.Equate), ∃ valued,
      Stays (p.setStatement (.directive directive valued))
        ((p.note assembler entry).equateBy assembler label directive operand outcome) := by
    intro entry label outcome
    unfold equateBy
    split
    · rename_i found
      exact ⟨{ operand with value := found.value }, rfl, by simp [equate]⟩
    · have noted : Stays p (p.note assembler entry) := ⟨by simp, by simp⟩
      exact (noted.trans (report_stays _ assembler _)).of_stated p stated
  unfold applyEquate
  split
  · exact reported _
  · split
    · exact reported _
    · split
      · split
        · exact ⟨{ operand with value := operand.value }, rfl, rfl⟩
        · exact reported _
      · split
        · exact evaluated _ _ _
        · exact evaluated _ _ _
        · exact (Stays.refl p).of_stated p stated
        · exact reported _

end Directive

theorem applyEnd_stays (operand : Operand) : Stays p (p.applyEnd assembler operand) := by
  refine (ignoreLabel_stays p assembler).trans ?_
  unfold applyEnd
  dsimp only
  split
  · exact ⟨rfl, rfl⟩
  · exact report_stays _ assembler _

theorem applyEntry_stays (operand : Operand) : Stays p (p.applyEntry assembler operand) := by
  refine (ignoreLabel_stays p assembler).trans ?_
  unfold applyEntry
  dsimp only
  repeat' split
  · exact ⟨rfl, rfl⟩
  · exact ⟨rfl, rfl⟩
  · exact .refl _
  · exact report_stays _ assembler _
  · exact report_stays _ assembler _

theorem applyExternal_stays (operand : Operand) : Stays p (p.applyExternal assembler operand) := by
  refine (ignoreLabel_stays p assembler).trans ?_
  unfold applyExternal
  dsimp only
  repeat' split
  · exact report_stays _ assembler _
  · exact ⟨rfl, rfl⟩
  · exact report_stays _ assembler _

theorem applyReset_stays {operand : Operand}
    (stated : p.line.statement = some (.directive .reset operand)) : ∃ valued,
    Stays (p.setStatement (.directive .reset valued)) (p.applyReset assembler operand) := by
  unfold applyReset
  split
  · exact (report_stays p assembler _).of_stated p stated
  · split
    · exact (report_stays p assembler _).of_stated p stated
    · split
      · exact (report_stays p assembler _).of_stated p stated
      · rename_i target _ _
        exact ⟨{ operand with value := target }, rfl, (defineLabel_stays p assembler _ _).started⟩

theorem applyData_stays (operand : Operand) : Stays p (p.applyData assembler operand) := by
  refine allocate_stays p assembler fun q => ?_
  repeat' split
  · exact ⟨rfl, rfl⟩
  · exact .refl q
  · exact report_stays q assembler _

theorem applyConstant_stays (operand : Operand) : Stays p (p.applyConstant assembler operand) := by
  refine allocate_stays p assembler fun q => ?_
  split
  · exact report_stays q assembler _
  · exact .refl q

theorem applyIdle_stays (operand : Operand) : Stays p (p.applyIdle assembler operand) := by
  refine allocate_stays p assembler fun q => ?_
  have idle : Stays q (q.setWord Line.idleWord) := ⟨rfl, rfl⟩
  dsimp only
  split
  · exact idle
  · exact idle.trans (report_stays _ assembler _)

/-- A directive other than START begins no program, and is kept; its operand may get a value. -/
theorem applyDirective_stays {directive : Directive} {operand : Operand}
    (stated : p.line.statement = some (.directive directive operand))
    (other : directive ≠ .start) : ∃ valued,
    Stays (p.setStatement (.directive directive valued))
      (p.applyDirective assembler directive operand) := by
  cases directive with
  | start => exact absurd rfl other
  | finish => exact (applyEnd_stays p assembler operand).of_stated p stated
  | equ => exact applyEquate_stays p assembler stated
  | eque => exact applyEquate_stays p assembler stated
  | adc => exact (applyConstant_stays p assembler operand).of_stated p stated
  | adce => exact (applyConstant_stays p assembler operand).of_stated p stated
  | entry => exact (applyEntry_stays p assembler operand).of_stated p stated
  | extrn => exact (applyExternal_stays p assembler operand).of_stated p stated
  | reset => exact applyReset_stays p assembler stated
  | dat => exact (applyData_stays p assembler operand).of_stated p stated
  | nop => exact (applyIdle_stays p assembler operand).of_stated p stated

theorem applyStart_statement (operand : Operand) :
    (p.applyStart assembler operand).line.statement = p.line.statement := by
  unfold applyStart
  repeat' split
  all_goals simp [beginProgram]

/-- START without a fatal diagnostic begins the program, unless it has begun before. -/
theorem applyStart_running {operand : Operand}
    (running : (p.applyStart assembler operand).fatal = none) :
    p.context.started = true ∧
        p.applyStart assembler operand = p.report assembler .secondStart ∨
      p.context.started = false ∧ ∃ load, p.applyStart assembler operand =
        p.beginProgram (p.line.label.getD operand.text) load := by
  have fatal : ∀ key : Key, key.severity = .fatal → (p.report assembler key).fatal ≠ none := by
    intro key severe
    simp [severe]
  unfold applyStart at running ⊢
  split
  · rename_i started
    exact Or.inl ⟨started, rfl⟩
  · rename_i unstarted
    refine Or.inr ⟨by simpa using unstarted, ?_⟩
    rw [if_neg unstarted] at running
    split
    · rename_i unnamed
      rw [unnamed] at running
      dsimp only at running
      split
      · exact ⟨0, by rw [unnamed]; rfl⟩
      · rename_i other
        rw [if_neg other] at running
        exact absurd running (fatal .startLabel rfl)
    · rename_i name named
      rw [named] at running
      dsimp only at running
      split
      · exact ⟨operand.value, by rw [named]; rfl⟩
      · rename_i other
        rw [if_neg other] at running
        exact absurd running (fatal .startOperand rfl)

/-! ### Whole lines -/

/-- A line that is read as a directive says so. -/
theorem readDirective_statement (directive : Directive) (rest : Bytes) :
    ∃ valued, (p.readDirective assembler directive rest).1.line.statement =
      some (.directive directive valued) := by
  let stated := (p.readOperand assembler rest).2.2.setStatement
    (.directive directive (p.readOperand assembler rest).1)
  have applied : ∃ valued, (stated.applyDirective assembler directive
      (p.readOperand assembler rest).1).line.statement = some (.directive directive valued) := by
    by_cases start : directive = .start
    · subst start
      exact ⟨_, applyStart_statement stated assembler _⟩
    · obtain ⟨valued, stays⟩ := applyDirective_stays stated assembler rfl start
      exact ⟨valued, stays.statement⟩
  exact applied

theorem readDirective_started {directive : Directive} (rest : Bytes) (other : directive ≠ .start) :
    (p.readDirective assembler directive rest).1.context.started = p.context.started := by
  obtain ⟨added, remarks, _⟩ := readOperand_remarks p assembler rest
  obtain ⟨valued, stays⟩ := applyDirective_stays ((p.readOperand assembler rest).2.2.setStatement
    (.directive directive (p.readOperand assembler rest).1)) assembler rfl other
  exact stays.started.trans remarks.stays.started

theorem readDirective_unaddressed {directive : Directive} (rest : Bytes)
    (plain : directive ∉ [.dat, .adc, .adce, .nop]) :
    (p.readDirective assembler directive rest).1.line.addressed = p.line.addressed := by
  obtain ⟨added, remarks, _⟩ := readOperand_remarks p assembler rest
  have applied := applyDirective_unaddressed assembler
    ((p.readOperand assembler rest).2.2.setStatement
      (.directive directive (p.readOperand assembler rest).1))
    directive (p.readOperand assembler rest).1 plain
  exact applied.trans remarks.settles.addressed

theorem directive?_of_statement {first second : Line}
    (same : second.statement = first.statement) : second.directive? = first.directive? := by
  unfold Line.directive?
  rw [same]

theorem encodeLine_directive? (instruction : Instruction) :
    (p.encodeLine assembler instruction).line.directive? = none := by
  unfold encodeLine
  split
  · rfl
  · split
    · rfl
    · dsimp only
      split <;> rfl

/-- A line that is read as an instruction says no directive. -/
theorem readInstruction_directive? (group : Group) (rest : Bytes) :
    (p.readInstruction assembler group rest).1.line.directive? = none := by
  have full : ∀ q : Pass, q.line.directive? = none →
      ((q.defineOwnLabel assembler).report assembler .tooLarge).line.directive? = none := by
    intro q unsaid
    have stays := (defineOwnLabel_stays q assembler).trans (report_stays _ assembler .tooLarge)
    rw [directive?_of_statement stays.statement, unsaid]
  unfold readInstruction
  dsimp only
  unfold allocate
  split
  · exact full _ rfl
  · exact encodeLine_directive? _ assembler _

theorem readInstruction_started (group : Group) (rest : Bytes) :
    (p.readInstruction assembler group rest).1.context.started = p.context.started := by
  obtain ⟨added, remarks⟩ := readFunction_remarks p assembler group rest
  let stated := (p.readFunction assembler group rest).2.2.setStatement
    (.instruction (p.readFunction assembler group rest).1)
  have labelled : (stated.defineOwnLabel assembler).context.started = p.context.started :=
    (defineOwnLabel_stays stated assembler).started.trans remarks.stays.started
  have encoded : ((stated.defineOwnLabel assembler).allocate assembler fun q =>
      q.encodeLine assembler (p.readFunction assembler group rest).1).context.started =
        p.context.started := by
    unfold allocate
    split
    · exact (report_stays _ assembler _).started.trans labelled
    · exact (encodeLine_settles _ assembler _).program.started.trans labelled
  exact encoded

theorem readUnknown_stays (columns : Columns) : Stays p (p.readUnknown assembler columns) := by
  have commented : Stays p (if columns.command.kind = .comment then
      p.setComment (some columns.command.text) else p) := by
    split
    · exact (setComment_remarks p _).stays
    · exact .refl p
  have labelled := commented.trans (defineOwnLabel_stays _ assembler)
  unfold readUnknown
  dsimp only
  generalize (if columns.command.kind = .comment then
    p.setComment (some columns.command.text) else p).defineOwnLabel assembler = q at labelled ⊢
  split
  · exact labelled
  · exact labelled.trans (report_stays q assembler _)

/-- What a line says at its end it said before. -/
theorem directive?_of_finishLine {rest : Bytes} {said : Directive × Operand}
    (found : (p.finishLine assembler rest).line.directive? = some said) :
    p.line.directive? = some said := by
  obtain ⟨added, remarks, _⟩ := readTrailing_remarks p assembler rest
  unfold finishLine at found
  dsimp only at found
  split at found
  · exact found
  · split at found
    · cases found
    · rw [← found]
      exact (directive?_of_statement remarks.stays.statement).symm

/-- A line without a word says to its end what it said. -/
theorem finishLine_stays (rest : Bytes) (unaddressed : p.line.addressed = false) :
    Stays p (p.finishLine assembler rest) := by
  obtain ⟨added, remarks, _⟩ := readTrailing_remarks p assembler rest
  unfold finishLine
  dsimp only
  split
  · exact .refl p
  · rw [if_neg]
    · exact remarks.stays
    · simp [remarks.settles.addressed, unaddressed]

/-- The line read as a directive up to its operand, and what follows it. -/
def asDirective (directive : Directive) : Pass × Bytes :=
  (p.readLabel assembler (assembler.columns p.line.source).label).readDirective assembler directive
    (assembler.columns p.line.source).rest

/-- The line read as an instruction up to its operand, and what follows it. -/
def asInstruction (group : Group) : Pass × Bytes :=
  (p.readLabel assembler (assembler.columns p.line.source).label).readInstruction assembler group
    (assembler.columns p.line.source).rest

/-- A line says nothing new, or is read as an instruction or a directive. -/
theorem readLine_reads : Stays p (p.readLine assembler) ∨
    (∃ group, p.readLine assembler = (p.asInstruction assembler group).1.finishLine assembler
      (p.asInstruction assembler group).2) ∨
    ∃ directive, p.readLine assembler = (p.asDirective assembler directive).1.finishLine assembler
      (p.asDirective assembler directive).2 := by
  rcases readLine_cases p assembler with ⟨key, _, refused⟩ | blank | ⟨_, _, command⟩
  · rw [refused]
    exact Or.inl (report_stays p assembler key)
  · rw [blank]
    exact Or.inl (setComment_remarks p _).stays
  · rw [command]
    cases named : assembler.command? (assembler.columns p.line.source).command with
    | none =>
      rw [readCommand_unknown rfl named]
      exact Or.inl ((readLabel_stays p assembler _).trans (readUnknown_stays _ assembler _))
    | some command =>
      cases command with
      | group group => exact Or.inr (Or.inl ⟨group, readCommand_group rfl named⟩)
      | directive directive => exact Or.inr (Or.inr ⟨directive, readCommand_directive rfl named⟩)

theorem asDirective_directive? (directive : Directive) :
    ∃ operand, (p.asDirective assembler directive).1.line.directive? =
      some (directive, operand) := by
  obtain ⟨operand, stated⟩ : ∃ operand, (p.asDirective assembler directive).1.line.statement =
      some (.directive directive operand) := readDirective_statement _ assembler directive _
  refine ⟨operand, ?_⟩
  rw [Line.directive?, stated]

variable {p assembler}

/-- A line that says a directive was read as that directive. -/
theorem readLine_of_directive {directive : Directive} {operand : Operand} (fresh : p.Fresh)
    (said : (p.readLine assembler).line.directive? = some (directive, operand)) :
    p.readLine assembler = (p.asDirective assembler directive).1.finishLine assembler
      (p.asDirective assembler directive).2 := by
  rcases readLine_reads p assembler with stays | ⟨group, read⟩ | ⟨other, read⟩
  · rw [directive?_of_statement stays.statement] at said
    simp [Line.directive?, fresh.unstated] at said
  · rw [read] at said
    have earlier := directive?_of_finishLine _ assembler said
    rw [asInstruction, readInstruction_directive?] at earlier
    cases earlier
  · rw [read] at said
    have earlier := directive?_of_finishLine _ assembler said
    obtain ⟨valued, found⟩ := asDirective_directive? p assembler other
    rw [found] at earlier
    cases earlier
    exact read

/-- Only four directives give a word to the line that is read as one. -/
theorem asDirective_unaddressed (fresh : p.Fresh) {directive : Directive}
    (plain : directive ∉ [.dat, .adc, .adce, .nop]) :
    (p.asDirective assembler directive).1.line.addressed = false := by
  obtain ⟨_, _, _, _, labelled, _⟩ := readLabel_settles p assembler
    (assembler.columns p.line.source).label fresh.unnamed fresh.unstated
  exact (readDirective_unaddressed _ assembler _ plain).trans (labelled.trans fresh.unaddressed)

/-- A line without a fatal diagnostic had none before its end. -/
theorem running_of_finishLine {rest : Bytes}
    (running : (p.finishLine assembler rest).fatal = none) : p.fatal = none := by
  obtain ⟨added, reports⟩ := finishLine_follows p assembler rest
  have halted := reports.fatal
  rw [running, Option.isSome_none, eq_comm, Bool.or_eq_false_iff] at halted
  simpa using halted.1

/-! ### The beginning of the program -/

/-- A line that is read as START without a fatal diagnostic leaves a program that has begun. -/
theorem asDirective_start_started (running : (p.asDirective assembler .start).1.fatal = none) :
    (p.asDirective assembler .start).1.context.started = true := by
  have applied : ∀ (q : Pass) (operand : Operand), (q.applyStart assembler operand).fatal = none →
      (q.applyStart assembler operand).context.started = true := by
    intro q operand running
    rcases applyStart_running q assembler running with ⟨started, again⟩ | ⟨_, load, begun⟩
    · rw [again, (report_stays q assembler _).started]
      exact started
    · rw [begun]
      rfl
  exact applied _ _ running

end Pass

def Line.saysStart (line : Line) : Bool := line.directive?.map (·.1) == some .start

namespace Pass

variable {p : Pass} {assembler : Assembler}

/-- The program has begun after a line just when it had before, or the line says START. -/
theorem readLine_begun (fresh : p.Fresh) (running : (p.readLine assembler).fatal = none) :
    (p.readLine assembler).context.started =
      (p.context.started || (p.readLine assembler).line.saysStart) := by
  have unsaid : ∀ q : Pass, q.context.started = p.context.started →
      (∀ operand, q.line.directive? ≠ some (.start, operand)) →
      q.context.started = (p.context.started || q.line.saysStart) := by
    intro q same other
    have silent : q.line.saysStart = false := by
      unfold Line.saysStart
      cases said : q.line.directive? with
      | none => rfl
      | some found =>
        obtain ⟨directive, operand⟩ := found
        simp only [Option.map_some, Option.some_beq_some, beq_eq_false_iff_ne]
        rintro rfl
        exact other operand said
    rw [same, silent, Bool.or_false]
  rcases readLine_reads p assembler with stays | ⟨group, read⟩ | ⟨directive, read⟩
  · refine unsaid _ stays.started fun operand said => ?_
    rw [directive?_of_statement stays.statement] at said
    simp [Line.directive?, fresh.unstated] at said
  · rw [read]
    refine unsaid _ ?_ fun operand said => ?_
    · exact (finishLine_settles _ assembler _).program.started.trans
        ((readInstruction_started _ assembler group _).trans
          (readLabel_stays p assembler _).started)
    · have earlier := directive?_of_finishLine _ assembler said
      rw [asInstruction, readInstruction_directive?] at earlier
      cases earlier
  · -- START without a fatal diagnostic always leaves the program begun, also the second one.
    obtain ⟨operand, said⟩ := asDirective_directive? p assembler directive
    by_cases start : directive = .start
    · subst start
      rw [read] at running ⊢
      have stays := finishLine_stays (p.asDirective assembler .start).1 assembler
        (p.asDirective assembler .start).2 (asDirective_unaddressed fresh (by decide))
      rw [stays.started, asDirective_start_started (running_of_finishLine running),
        Line.saysStart, directive?_of_statement stays.statement, said]
      simp
    · rw [read]
      refine unsaid _ ?_ fun operand later => ?_
      · exact (finishLine_settles _ assembler _).program.started.trans
          ((readDirective_started _ assembler _ start).trans
            (readLabel_stays p assembler _).started)
      · have earlier := directive?_of_finishLine _ assembler later
        rw [said] at earlier
        cases earlier
        exact start rfl

end Pass

end WordAssembler

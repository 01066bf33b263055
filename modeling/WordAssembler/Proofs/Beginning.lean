import WordAssembler.Proofs.Clean
import WordAssembler.Proofs.Spelling
import WordAssembler.Proofs.Statements

/-!
The beginning of a program. The first line must pass for START, and does so in two spellings: as the
name START it begins the program, and with a long s it is then no command at all. A program has
begun just when one of its lines says START, which is what the second pass asks for; so it refuses
every source with a fatal diagnostic, but not one whose reading stopped at a line that is too long.
-/

set_option autoImplicit false

namespace WordAssembler

/-! ### The first line -/

/-- A line that passes for START is read as START if its command is a name, and else has no
command. -/
theorem Assembler.command?_eq_of_isStart {assembler : Assembler} {source : Bytes}
    (isStart : assembler.isStart source = true) :
    assembler.command? (assembler.columns source).command =
      if (assembler.columns source).command.kind = .label then some (.directive .start)
      else none := by
  have looked : assembler.directives.lookup? (assembler.columns source).command.text =
      some .start := by simpa [Assembler.isStart] using isStart
  have known := Assembler.command?_of_isStart isStart
  unfold Assembler.command? at known ⊢
  split
  · rename_i label
    rw [if_pos label, looked] at known
    rw [looked]
    cases group : assembler.opcodes.group? (assembler.columns source).command.text with
    | none => rfl
    | some found => simp [group] at known
  · rfl

/-- A line that passes for START has a name as its command just when no long s is in it. -/
theorem Assembler.kind_of_isStart_iff {assembler : Assembler} {source : Bytes}
    (isStart : assembler.isStart source = true) :
    (assembler.columns source).command.kind = .label ↔
      ¬ longS <:+: (assembler.columns source).command.text := by
  have start := Assembler.upper_of_isStart isStart
  have uncommented := (Assembler.kind_of_isStart isStart).2
  have kind : (assembler.columns source).command.kind =
      Token.kindOf (assembler.columns source).command.text := by
    rcases assembler.command_of_columns source with first | ⟨_, second⟩
    · rw [first] at uncommented ⊢
      exact Token.next_kind uncommented
    · rw [second] at uncommented ⊢
      exact Token.next_kind uncommented
  rw [kind]
  exact Token.kindOf_of_upper start

/-- The line says START, and the program has begun with the name that the line gives: its label, or
else its operand. -/
def Line.Begins (line : Line) (context : Context) : Prop :=
  ∃ operand, line.statement = some (.directive .start operand) ∧ context.started = true ∧
    context.program = line.label.getD operand.text

theorem Line.Begins.of_same {first second : Line} {before after : Context}
    (begins : first.Begins before) (statement : second.statement = first.statement)
    (label : second.label = first.label) (program : before.SameProgram after) :
    second.Begins after := by
  obtain ⟨operand, stated, started, named⟩ := begins
  refine ⟨operand, statement.trans stated, program.started.trans started, ?_⟩
  rw [program.program, named, label]

theorem Line.Begins.started {line : Line} {context : Context} (begins : line.Begins context) :
    context.started = true := by
  obtain ⟨_, _, started, _⟩ := begins
  exact started

theorem Line.Begins.saysStart {line : Line} {context : Context} (begins : line.Begins context) :
    line.saysStart = true := by
  obtain ⟨operand, stated, _⟩ := begins
  simp [Line.saysStart, Line.directive?, stated]

/-- The line opens a source: it begins the program, or is written with a long s and then says
nothing and is wrong. -/
structure Line.Opens (assembler : Assembler) (line : Line) (context : Context) : Prop where
  wrong : longS <:+: (assembler.columns line.source).command.text →
    line.statement = none ∧ context.errors ≠ 0
  begins : ¬ longS <:+: (assembler.columns line.source).command.text → line.Begins context

theorem Line.Opens.of_same {assembler : Assembler} {first second : Line} {before after : Context}
    (opens : first.Opens assembler before) (source : second.source = first.source)
    (statement : second.statement = first.statement) (label : second.label = first.label)
    (errors : before.errors ≤ after.errors)
    (program : before.started = true → before.SameProgram after) :
    second.Opens assembler after := by
  constructor
  · intro long
    rw [source] at long
    obtain ⟨silent, wrong⟩ := opens.wrong long
    exact ⟨statement.trans silent, by omega⟩
  · intro plain
    rw [source] at plain
    have begins := opens.begins plain
    exact begins.of_same statement label (program begins.started)

namespace Pass

variable {p : Pass} {assembler : Assembler}

theorem applyStart_begins {operand : Operand} (unstarted : p.context.started = false)
    (stated : p.line.statement = some (.directive .start operand))
    (running : (p.applyStart assembler operand).fatal = none) :
    (p.applyStart assembler operand).line.Begins (p.applyStart assembler operand).context := by
  rcases applyStart_running p assembler running with ⟨started, _⟩ | ⟨_, load, begun⟩
  · rw [unstarted] at started
    cases started
  · rw [begun]
    exact ⟨operand, stated, rfl, rfl⟩

/-- A line that is read as START, and not refused, begins a program that has not begun. -/
theorem asDirective_start_begins (unstarted : p.context.started = false)
    (running : (p.asDirective assembler .start).1.fatal = none) :
    (p.asDirective assembler .start).1.line.Begins (p.asDirective assembler .start).1.context := by
  have labelled := readLabel_stays p assembler (assembler.columns p.line.source).label
  obtain ⟨added, remarks, _⟩ := readOperand_remarks (p.readLabel assembler
    (assembler.columns p.line.source).label) assembler (assembler.columns p.line.source).rest
  have unstarted := (labelled.trans remarks.stays).started.trans unstarted
  exact applyStart_begins (p := setStatement _ _) unstarted rfl running

/-- The first line passes for START, and opens the source. -/
theorem readLine_opens (fresh : p.Fresh) (first : p.line.number = 1)
    (unended : p.context.ended = false) (unstarted : p.context.started = false)
    (running : (p.readLine assembler).fatal = none) :
    (p.readLine assembler).line.Opens assembler (p.readLine assembler).context := by
  have isStart : assembler.isStart p.line.source = true := by
    cases isStart : assembler.isStart p.line.source with
    | true => rfl
    | false => simp [readLine, first, isStart, Key.noStart] at running
  obtain ⟨filled, uncommented⟩ := Assembler.kind_of_isStart isStart
  have nonblank := Assembler.isBlank_of_kind filled uncommented
  have command : p.readLine assembler = p.readCommand assembler := by
    simp [readLine, isStart, unended, nonblank]
  -- Passing for START asks for the upper case of the word only; a command must be a name too.
  have known := Assembler.command?_eq_of_isStart isStart
  obtain ⟨added, reports⟩ := p.readLine_follows assembler
  constructor
  · intro long
    rw [reports.source] at long
    rw [if_neg fun label => (Assembler.kind_of_isStart_iff isStart).1 label long] at known
    have stays := (readLabel_stays p assembler (assembler.columns p.line.source).label).trans
      (readUnknown_stays _ assembler (assembler.columns p.line.source))
    rw [command, readCommand_unknown rfl known]
    exact ⟨stays.statement.trans fresh.unstated,
      readUnknown_errors _ assembler _ filled uncommented⟩
  · intro plain
    rw [reports.source] at plain
    rw [if_pos ((Assembler.kind_of_isStart_iff isStart).2 plain)] at known
    rw [command, readCommand_directive rfl known] at running ⊢
    have begins := asDirective_start_begins (p := p) unstarted (running_of_finishLine running)
    have settles := finishLine_settles (p.asDirective assembler .start).1 assembler
      (p.asDirective assembler .start).2
    exact begins.of_same (finishLine_stays _ assembler _
      (asDirective_unaddressed fresh (by decide))).statement settles.label settles.program

end Pass

/-! ### Runs -/

namespace Reading

variable {assembler : Assembler} {reading : Reading} {program : Program}

/-- A reading without a fault has begun just when one of its lines says START. -/
theorem ofLines_begun {sources : List Bytes} (running : (ofLines assembler sources).fatal = none) :
    (ofLines assembler sources).context.started =
      (ofLines assembler sources).lines.any Line.saysStart := by
  induction sources using List.reverseRecOn with
  | nil => rfl
  | append_singleton sources source ih =>
    have before := running_of_append assembler running
    rw [ofLines_concat] at running ⊢
    rw [add_fatal before] at running
    rw [add_context before, add_lines before, stepped,
      Pass.readLine_begun (fresh_isFresh _ _) running, List.any_cons, ← ih before, Bool.or_comm]
    rfl

theorem Closed.sameProgram (closed : reading.Closed assembler program) :
    reading.context.SameProgram program.context := by
  cases closed with
  | ended same =>
    rw [same]
    exact .refl _
  | unended last earlier lines same =>
    rw [same]
    exact reading.context.count_sameProgram _

theorem Closed.saysStart (closed : reading.Closed assembler program) :
    program.lines.any Line.saysStart = reading.lines.any Line.saysStart := by
  cases closed with
  | ended same =>
    rw [same, Reading.program, List.any_reverse]
  | unended last earlier lines same =>
    rw [same, lines, List.any_reverse]
    rfl

/-- A program that has begun stays the same. -/
theorem add_sameProgram (started : reading.context.started = true) (numbered : Bytes × Nat) :
    reading.context.SameProgram (add assembler reading numbered).context := by
  cases halted : reading.fatal.isSome with
  | true =>
    rw [add_of_halted assembler halted]
    exact .refl _
  | false =>
    have advance : (reading.fresh numbered).Advance (reading.stepped assembler numbered) :=
      Pass.readLine_advance _ assembler (reading.fresh_isFresh numbered)
    rw [add_context (by simpa using halted)]
    cases advance with
    | rest program => exact program
    | word program => exact program
    | skip address program => exact program
    | begin name load fresh =>
      have unstarted : reading.context.started = false := fresh
      rw [started] at unstarted
      cases unstarted

theorem sameProgram_of_append {sources : List Bytes}
    (started : (ofLines assembler sources).context.started = true) (more : List Bytes) :
    (ofLines assembler sources).context.SameProgram
      (ofLines assembler (sources ++ more)).context := by
  induction more using List.reverseRecOn with
  | nil =>
    rw [List.append_nil]
    exact .refl _
  | append_singleton more source ih =>
    rw [← List.append_assoc, ofLines_concat]
    exact ih.trans (add_sameProgram (ih.started.trans started) _)

/-- The first line that was read opens the source, whatever was read after it. -/
theorem ofLines_opens {source : Bytes} {more : List Bytes}
    (running : (ofLines assembler (source :: more)).fatal = none) :
    ∃ first, (ofLines assembler (source :: more)).lines.reverse[0]? = some first ∧
      first.Opens assembler (ofLines assembler (source :: more)).context := by
  have here : (source :: more)[0]? = some source := rfl
  have context : (ofLines assembler [source]).context =
      (initial.stepped assembler (source, 1)).context := by
    rw [ofLines_singleton, afterPass, Pass.noteLine_context]
  have early : (initial.stepped assembler (source, 1)).fatal = none := by
    have running : (ofLines assembler [source]).fatal = none := running_take running 1
    rw [ofLines_singleton, afterPass, Pass.noteLine_fatal] at running
    exact running
  have opens : (initial.stepped assembler (source, 1)).line.Opens assembler
      (ofLines assembler [source]).context :=
    context ▸ Pass.readLine_opens (initial.fresh_isFresh (source, 1)) rfl rfl rfl early
  refine ⟨_, line_of_source here running, ?_⟩
  -- After a long s a later line may still begin the program, so it is kept only if it has begun.
  exact opens.of_same rfl rfl rfl (errors_le_append assembler [source] more)
    fun started => sameProgram_of_append started more

theorem finish_synchronized (assembler : Assembler) (synchronized : reading.Synchronized) :
    (reading.finish assembler).Synchronized := by
  have reported : ∀ key line lines,
      (afterPass ((reading.pass line).report assembler key) lines).Synchronized := by
    intro key line lines
    obtain ⟨added, reports⟩ := (reading.pass line).report_follows assembler key
    change (Pass.context _).fatal = (Pass.fatal _).isSome
    rw [reports.halted, reports.fatal]
    exact congrArg (· || _) synchronized
  unfold finish
  repeat' split
  · exact synchronized
  · unfold reportLast
    split <;> exact reported _ _ _
  · exact synchronized
  · unfold reportLast
    split <;> exact reported _ _ _

end Reading

namespace Assembler

variable (assembler : Assembler) (text : Bytes)

/-- The program of a source has a fatal diagnostic just when that is its fault. -/
theorem parse_fatal : (assembler.parse text).program.context.fatal = true ↔
    ∃ fault, (assembler.parse text).fault = some (.fatal fault) := by
  have synchronized := Reading.ofLines_synchronized assembler (Lines.read text).lines
  have finished := Reading.finish_synchronized assembler synchronized
  unfold parse
  dsimp only
  split
  · rename_i tooLong
    simp only [Bool.and_eq_true, Option.isNone_iff_eq_none] at tooLong
    have running : (Reading.ofLines assembler (Lines.read text).lines).context.fatal = false := by
      rw [synchronized, tooLong.2]
      rfl
    simp [Reading.program, running]
  · change (Reading.finish assembler _).context.fatal = true ↔ _
    rw [finished]
    cases (Reading.finish assembler
      (Reading.ofLines assembler (Lines.read text).lines)).fatal <;> simp

/-- The program of a source without a fatal diagnostic has begun just when a line says START. -/
theorem parse_begun (running : (assembler.parse text).program.context.fatal = false) :
    (assembler.parse text).program.context.started =
      (assembler.parse text).program.lines.any Line.saysStart := by
  obtain ⟨unhalted, closed⟩ := assembler.parse_running text running
  rw [closed.sameProgram.started, closed.saysStart]
  exact Reading.ofLines_begun unhalted

/-- A program is refused by the second pass if it was given up or has not begun. -/
theorem emit_eq_noProgram_iff (program : Program) (date : Date) :
    assembler.emit program date = .error .noProgram ↔
      program.context.fatal = true ∨ program.context.started = false := by
  unfold emit
  split
  · rename_i refused
    simpa using refused
  · rename_i ready
    split <;> simpa using ready

end Assembler

/-! ### Sources that were read -/

namespace Assembler

variable {assembler : Assembler} {text : Bytes}

/-- A source that was read without a fault has lines. -/
theorem lines_ne_nil_of_read (read : (assembler.parse text).fault = none) :
    (Lines.read text).lines ≠ [] := by
  intro empty
  unfold parse at read
  dsimp only at read
  rw [empty] at read
  split at read
  · cases read
  · simp [Reading.ofLines, Reading.finish, Reading.initial, Reading.reportLast, Reading.afterPass,
      Reading.pass, Key.noStart] at read

theorem running_of_read (read : (assembler.parse text).fault = none) :
    (assembler.parse text).program.context.fatal = false := by
  cases fatal : (assembler.parse text).program.context.fatal with
  | false => rfl
  | true =>
    obtain ⟨fault, failed⟩ := (assembler.parse_fatal text).1 fatal
    rw [read] at failed
    cases failed

theorem parse_of_short (assembler : Assembler) (short : (Lines.read text).tooLong = false) :
    assembler.parse text =
      ⟨((Reading.ofLines assembler (Lines.read text).lines).finish assembler).program,
        ((Reading.ofLines assembler (Lines.read text).lines).finish assembler).fatal.map .fatal,
        ((Reading.ofLines assembler (Lines.read text).lines).finish assembler).log.reverse⟩ := by
  unfold parse
  dsimp only
  rw [if_neg (by simp [short])]

theorem short_of_read (read : (assembler.parse text).fault = none) :
    (Lines.read text).tooLong = false := by
  obtain ⟨running, _⟩ := assembler.parse_running text (running_of_read read)
  unfold parse at read
  dsimp only at read
  split at read
  · cases read
  · rename_i short
    simpa [running] using short

/-- The first line of a source that was read without a fault opens it. -/
theorem opens_of_read (read : (assembler.parse text).fault = none) :
    ∃ first later, (assembler.parse text).program.lines = first :: later ∧
      first.Opens assembler (assembler.parse text).program.context := by
  obtain ⟨unhalted, closed⟩ := assembler.parse_running text (running_of_read read)
  cases sources : (Lines.read text).lines with
  | nil => exact absurd sources (lines_ne_nil_of_read read)
  | cons source more =>
    rw [sources] at unhalted closed
    obtain ⟨line, found, opens⟩ := Reading.ofLines_opens unhalted
    obtain ⟨diagnostics, _, placed⟩ := closed.line_of_reading found
    have opens : ({ line with diagnostics := diagnostics } : Line).Opens assembler
        (assembler.parse text).program.context :=
      opens.of_same rfl rfl rfl (Nat.le_of_eq closed.errors.symm) fun _ => closed.sameProgram
    cases lines : (assembler.parse text).program.lines with
    | nil =>
      rw [lines] at placed
      cases placed
    | cons first later =>
      rw [lines] at placed
      cases placed
      exact ⟨_, later, rfl, opens⟩

/-- What a source without a fault is refused for. -/
theorem assemble_eq_noProgram_iff (read : (assembler.parse text).fault = none) (date : Date) :
    (assembler.assemble text date).outcome = .error (.emit .noProgram) ↔
      ∀ line ∈ (assembler.parse text).program.lines, line.saysStart = false := by
  have running := running_of_read read
  have refused := assembler.emit_eq_noProgram_iff (assembler.parse text).program date
  rw [running, assembler.parse_begun text running, List.any_eq_false] at refused
  unfold assemble
  dsimp only
  rw [read]
  dsimp only
  cases emission : assembler.emit (assembler.parse text).program date with
  | error fault =>
    rw [emission] at refused
    simpa using refused
  | ok emitted =>
    rw [emission] at refused
    simpa using refused

/-- As the name START the first line begins the program, which is then not refused. With a long s it
is wrong and says nothing, and the program is refused unless a later line says START. -/
theorem start_of_read (assembler : Assembler) (text : Bytes)
    (read : (assembler.parse text).fault = none) :
    ∃ first later, (assembler.parse text).program.lines = first :: later ∧
      (¬ longS <:+: (assembler.columns first.source).command.text →
        first.Begins (assembler.parse text).program.context ∧
          ∀ date, (assembler.assemble text date).outcome ≠ .error (.emit .noProgram)) ∧
      (longS <:+: (assembler.columns first.source).command.text →
        first.statement = none ∧ (assembler.parse text).program.context.errors ≠ 0 ∧
          ∀ date, (assembler.assemble text date).outcome = .error (.emit .noProgram) ↔
            ∀ line ∈ later, line.saysStart = false) := by
  obtain ⟨first, later, lines, opens⟩ := opens_of_read read
  have refused := assemble_eq_noProgram_iff read
  simp only [lines, List.forall_mem_cons] at refused
  refine ⟨first, later, lines, fun plain => ?_, fun long => ?_⟩
  · have begins := opens.begins plain
    refine ⟨begins, fun date failed => ?_⟩
    have silent := ((refused date).1 failed).1
    rw [begins.saysStart] at silent
    cases silent
  · obtain ⟨unstated, wrong⟩ := opens.wrong long
    have silent : first.saysStart = false := by
      simp [Line.saysStart, Line.directive?, unstated]
    refine ⟨unstated, wrong, fun date => ?_⟩
    rw [refused date, silent]
    exact ⟨fun all => all.2, fun all => ⟨rfl, all⟩⟩

end Assembler

/-- A source whose first line is START in small letters, with a label. -/
def smallSource : Bytes := ascii "Prog start 16\n nop"

/-- A source whose first line is START with a long s. -/
def longSource : Bytes := longS ++ ascii "TART PROG"

theorem Assembler.start_of_read_spelled :
    (∃ first later, (Assembler.parse {} smallSource).program.lines = first :: later ∧
      first.Begins (Assembler.parse {} smallSource).program.context) ∧
    (Assembler.assemble {} longSource Date.first).outcome = .error (.emit .noProgram) := by
  have small : (Assembler.parse {} smallSource).program.lines.map (·.source) =
      [ascii "Prog start 16", ascii " nop"] := by decide +kernel
  have long : (Assembler.parse {} longSource).program.lines.map (·.source) = [longSource] := by
    decide +kernel
  constructor
  · obtain ⟨first, later, lines, begins⟩ := Assembler.start_of_read {} smallSource
      (by decide +kernel)
    rw [lines] at small
    have source : first.source = ascii "Prog start 16" := (List.cons.inj small).1
    rw [source] at begins
    exact ⟨first, later, lines, (begins.1 (by decide +kernel)).1⟩
  · obtain ⟨first, later, lines, silent⟩ := Assembler.start_of_read {} longSource
      (by decide +kernel)
    rw [lines] at long
    have source : first.source = longSource := (List.cons.inj long).1
    have alone : later = [] := List.map_eq_nil_iff.1 (List.cons.inj long).2
    rw [source, alone] at silent
    exact ((silent.2 (by decide +kernel)).2.2 Date.first).2 (by simp)

/-- A source may be read without a fault and begin no program. -/
theorem Assembler.read_not_started : ¬ ∀ (assembler : Assembler) (text : Bytes),
    (assembler.parse text).fault = none →
      (∃ first later, (assembler.parse text).program.lines = first :: later ∧
        first.Begins (assembler.parse text).program.context) ∧
      ∀ date, (assembler.assemble text date).outcome ≠ .error (.emit .noProgram) := by
  intro starts
  obtain ⟨⟨first, later, lines, begins⟩, _⟩ := starts {} longSource (by decide +kernel)
  have unstarted : (Assembler.parse {} longSource).program.context.started = false := by
    decide +kernel
  rw [begins.started] at unstarted
  cases unstarted

/-! ### Sources that failed -/

namespace Assembler

/-- Emits a program in place: one that is refused stays as it is. -/
def emitInPlace (assembler : Assembler) (program : Program) (date : Date) :
    Program × Except EmitFault ObjectFile :=
  match assembler.emit program date with
  | .error fault => (program, .error fault)
  | .ok emitted => (emitted.program, .ok emitted.file)

theorem emitInPlace_eq_noProgram_iff (assembler : Assembler) (program : Program) (date : Date) :
    assembler.emitInPlace program date = (program, .error .noProgram) ↔
      assembler.emit program date = .error .noProgram := by
  unfold emitInPlace
  cases assembler.emit program date <;> simp

/-- The program of a source that failed is refused, and stays as it is, unless the source has a line
that is too long after one that says START. -/
theorem failed_refused_iff (assembler : Assembler) (text : Bytes) (date : Date)
    (fault : ParseFault) (failed : (assembler.parse text).fault = some fault) :
    assembler.emitInPlace (assembler.parse text).program date =
        ((assembler.parse text).program, .error .noProgram) ↔
      (fault = .tooLong →
        ∀ line ∈ (assembler.parse text).program.lines, line.saysStart = false) := by
  have fatal := assembler.parse_fatal text
  rw [failed] at fatal
  rw [emitInPlace_eq_noProgram_iff, emit_eq_noProgram_iff]
  cases fault with
  | fatal fault => simpa using Or.inl (fatal.2 ⟨fault, rfl⟩)
  | tooLong =>
    -- No diagnostic tells of the line, so nothing but the missing START can refuse the program.
    have running : (assembler.parse text).program.context.fatal = false := by
      simpa using mt fatal.1 (by simp)
    rw [running, assembler.parse_begun text running]
    simp

end Assembler

/-- A source with an END of another name after its START. -/
def misnamedSource : Bytes := ascii "PROG START 0\n END OTHER"

theorem Assembler.failed_refused_misnamedSource :
    (Assembler.parse {} misnamedSource).program.context.started = true ∧
    Assembler.emitInPlace {} (Assembler.parse {} misnamedSource).program Date.first =
      ((Assembler.parse {} misnamedSource).program, .error .noProgram) := by
  have faulty : (Assembler.parse {} misnamedSource).fault ≠ none := by decide +kernel
  have fatal : (Assembler.parse {} misnamedSource).fault ≠ some .tooLong := by decide +kernel
  obtain ⟨fault, failed⟩ := Option.ne_none_iff_exists'.1 faulty
  have refused := Assembler.failed_refused_iff {} misnamedSource Date.first fault failed
  refine ⟨by decide +kernel, refused.2 fun tooLong => ?_⟩
  rw [failed, tooLong] at fatal
  exact absurd rfl fatal

namespace Lines

theorem runs_of_plain {line : Bytes} (plain : ∀ b ∈ line, b ≠ byte '\n') (filled : line ≠ []) :
    runs line = [line] := by
  unfold runs
  dsimp only
  rw [pieces_of_plain plain, if_neg]
  simpa using filled

/-- A text of two lines, the second too long, is read up to the second. -/
theorem read_overlong {line rest : Bytes} (plain : ∀ b ∈ line, b ≠ byte '\n' ∧ b ≠ byte '\r')
    (short : line.length ≤ longest) (one : ∀ b ∈ rest, b ≠ byte '\n')
    (long : longest < rest.length) : read (line ++ byte '\n' :: rest) = ⟨[line], true⟩ := by
  have filled : rest ≠ [] := by
    rintro rfl
    simp at long
  have split := runs_append (fun b member => (plain b member).1) rest
  rw [runs_of_plain one filled] at split
  have fits : Lines.fits line = true := by simpa [Lines.fits] using short
  have overlong : Lines.fits rest = false := by simpa [Lines.fits] using long
  have kept := dropReturn_of_plain fun b member => (plain b member).2
  simp [read, split, fits, overlong, kept]

end Lines

namespace Assembler

/-- The program of a source is what was read before a line that is too long. -/
theorem parse_of_tooLong (assembler : Assembler) {text : Bytes} {sources : List Bytes}
    (read : Lines.read text = ⟨sources, true⟩)
    (running : (Reading.ofLines assembler sources).fatal = none) :
    assembler.parse text = ⟨(Reading.ofLines assembler sources).program, some .tooLong,
      (Reading.ofLines assembler sources).log.reverse⟩ := by
  simp [parse, read, running]

end Assembler

/-- A source with a line of 65536 bytes after its START. -/
def overlongSource : Bytes := ascii "PROG START 0" ++ byte '\n' :: List.replicate 65536 (byte 'A')

theorem read_overlongSource : Lines.read overlongSource = ⟨[ascii "PROG START 0"], true⟩ := by
  refine Lines.read_overlong (by decide +kernel) (by decide) ?_ ?_
  · intro b member
    rw [List.eq_of_mem_replicate member]
    decide
  · rw [List.length_replicate]
    decide

/-- A program that was read up to a line that is too long may be emitted. -/
theorem Assembler.failed_emitted : ¬ ∀ (assembler : Assembler) (text : Bytes) (date : Date),
    (assembler.parse text).fault ≠ none →
      assembler.emitInPlace (assembler.parse text).program date =
        ((assembler.parse text).program, .error .noProgram) := by
  intro refused
  have parsed := Assembler.parse_of_tooLong {} read_overlongSource (by decide +kernel)
  have failed := refused {} overlongSource Date.first (by simp [parsed])
  rw [parsed] at failed
  have emitted : (Assembler.emitInPlace {} (Reading.ofLines {} [ascii "PROG START 0"]).program
    Date.first).2.toOption.isSome = true := by decide +kernel
  rw [failed] at emitted
  cases emitted

end WordAssembler

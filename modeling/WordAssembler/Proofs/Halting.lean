import WordAssembler.Proofs.Frame
import WordAssembler.Proofs.Tallies

/-!
Where the first pass stops. Work on a line finds one fatal diagnostic at most, because what comes
after a fatal one is not done; so the fault of a program is its only fatal diagnostic, on the last
line that was recorded. The second pass finds none, and a source that was read without a fault has
an object file unless it begins no program.
-/

set_option autoImplicit false

namespace WordAssembler

namespace Line

def fatals (line : Line) : List Diagnostic :=
  line.diagnostics.filter (·.key.severity = .fatal)

theorem has_fatal_iff {line : Line} : line.has .fatal = true ↔ line.fatals ≠ [] := by
  simp [has, fatals, List.any_eq_true, List.filter_eq_nil_iff]

/-- Diagnostics that are not fatal do not count. -/
theorem fatals_append {line : Line} {added : List Diagnostic}
    (mild : ∀ diagnostic ∈ added, diagnostic.key.severity ≠ .fatal) :
    ({ line with diagnostics := line.diagnostics ++ added } : Line).fatals = line.fatals := by
  have none : added.filter (·.key.severity = .fatal) = [] := by
    simpa [List.filter_eq_nil_iff] using mild
  simp [fatals, List.filter_append, none]

end Line

/-! ### Work on a line -/

namespace Pass

/-- Nothing fatal was found, on the line or before, and the program is not emitted. -/
structure Running (p : Pass) : Prop where
  unhalted : p.fatal = none
  clean : p.line.fatals = []
  unemitted : p.context.emitted = false

/-- The pass goes on, or its fault is the one fatal diagnostic of its line. -/
inductive Judged (p : Pass) : Prop
  | running (running : p.Running)
  | halted (diagnostic : Diagnostic)
      (fault : p.fatal = some ⟨p.line.number, p.line.source, diagnostic⟩)
      (once : p.line.fatals = [diagnostic]) (unemitted : p.context.emitted = false)

/-- One pass is another after work that does not stop it. -/
structure Mild (p q : Pass) : Prop where
  fatal : q.fatal = p.fatal
  emitted : q.context.emitted = p.context.emitted

theorem Mild.refl (p : Pass) : Mild p p := ⟨rfl, rfl⟩

theorem Mild.trans {p q r : Pass} (left : Mild p q) (right : Mild q r) : Mild p r :=
  ⟨right.fatal.trans left.fatal, right.emitted.trans left.emitted⟩

variable {p q : Pass} (assembler : Assembler)

/-- A pass that did not stop reported nothing fatal. -/
theorem Running.follows (running : p.Running) (follows : Follows p q) (unhalted : q.fatal = none)
    (unemitted : q.context.emitted = false) : q.Running := by
  obtain ⟨added, reports⟩ := follows
  refine ⟨unhalted, ?_, unemitted⟩
  have quiet := reports.fatal
  rw [unhalted, running.unhalted] at quiet
  have mild : added.filter (·.key.severity = .fatal) = [] := by
    simpa [List.filter_eq_nil_iff] using quiet.symm
  have clean := running.clean
  rw [Line.fatals] at clean ⊢
  rw [reports.diagnostics, List.filter_append, clean, mild, List.append_nil]

theorem Running.mild (running : p.Running) (follows : Follows p q) (mild : Mild p q) :
    q.Running :=
  running.follows follows (mild.fatal.trans running.unhalted)
    (mild.emitted.trans running.unemitted)

/-- Work that moves nothing does not stop a pass. -/
theorem Running.frame (running : p.Running) (follows : Follows p q) (frame : q.frame = p.frame) :
    q.Running := by
  obtain ⟨context, _, _, fatal⟩ := frame_eq_iff.1 frame
  rw [running.unhalted] at fatal
  have emitted : q.context.emitted = p.context.emitted := (congrArg Context.emitted context :)
  exact running.follows follows (by simpa using fatal) (emitted.trans running.unemitted)

theorem Running.report (running : p.Running) (key : Key) : (p.report assembler key).Judged := by
  have unemitted : (p.report assembler key).context.emitted = false := by
    simpa [Context.count] using running.unemitted
  by_cases severe : key.severity = .fatal
  · refine .halted (assembler.catalog.lookup key) ?_ ?_ unemitted
    · rw [report_fatal, if_pos severe, running.unhalted, report_line]
      rfl
    · have clean := running.clean
      rw [Line.fatals] at clean ⊢
      simp [List.filter_append, clean, severe]
  · refine .running (running.follows (report_follows p assembler key) ?_ unemitted)
    rw [report_fatal, if_neg severe, running.unhalted]

/-! Most of the work on a line reports nothing fatal. -/

section Mild

variable (p)

theorem report_mild {key : Key} (mild : key.severity ≠ .fatal) :
    Mild p (p.report assembler key) :=
  ⟨by rw [report_fatal, if_neg mild], by simp [Context.count]⟩

theorem readLabel_mild (column : Option Token) : Mild p (p.readLabel assembler column) := by
  unfold readLabel
  split
  · exact .refl p
  · split
    · exact p.report_mild assembler (by decide)
    · split
      · exact p.report_mild assembler (by decide)
      · exact ⟨rfl, rfl⟩

theorem defineLabel_mild (label : Bytes) (location : Int) :
    Mild p (p.defineLabel assembler label location) := by
  rcases defineLabel_cases p assembler label location with ⟨symbols, defined, _⟩ | kept
  · rw [defined]
    exact ⟨rfl, rfl⟩
  · rw [kept]
    exact p.report_mild assembler (by decide)

theorem defineOwnLabel_mild : Mild p (p.defineOwnLabel assembler) := by
  unfold defineOwnLabel
  split
  · exact p.defineLabel_mild assembler _ _
  · exact .refl p

theorem ignoreLabel_mild : Mild p (p.ignoreLabel assembler) := by
  unfold ignoreLabel
  split
  · exact p.report_mild assembler (by decide)
  · exact .refl p

theorem applyEquate_mild (directive : Directive) (operand : Operand) :
    Mild p (p.applyEquate assembler directive operand) := by
  have evaluated : ∀ entry label, Mild p ((p.note assembler entry).equateBy assembler label
      directive operand
        (p.evaluator.equate operand.text p.context.location directive.operatorLimit)) := by
    intro entry label
    have noted : Mild p (p.note assembler entry) := ⟨note_fatal .., by rw [note_context]⟩
    refine noted.trans ?_
    unfold equateBy
    split
    · exact ⟨rfl, rfl⟩
    · rename_i fault failed
      exact report_mild _ assembler (by simp [Expression.Evaluator.equate_serious failed])
  unfold applyEquate
  split
  · exact p.report_mild assembler (by decide)
  · split
    · exact p.report_mild assembler (by decide)
    · split
      · split
        · exact ⟨rfl, rfl⟩
        · exact p.report_mild assembler (by decide)
      · split
        · exact evaluated _ _
        · exact evaluated _ _
        · exact .refl p
        · exact p.report_mild assembler (by decide)

theorem applyEntry_mild (operand : Operand) : Mild p (p.applyEntry assembler operand) := by
  refine (p.ignoreLabel_mild assembler).trans ?_
  unfold applyEntry
  dsimp only
  split
  · split
    · exact ⟨rfl, rfl⟩
    · split
      · exact ⟨rfl, rfl⟩
      · exact .refl _
      · exact report_mild _ assembler (by decide)
  · exact report_mild _ assembler (by decide)

theorem applyExternal_mild (operand : Operand) : Mild p (p.applyExternal assembler operand) := by
  refine (p.ignoreLabel_mild assembler).trans ?_
  unfold applyExternal
  dsimp only
  split
  · split
    · exact report_mild _ assembler (by decide)
    · exact ⟨rfl, rfl⟩
  · exact report_mild _ assembler (by decide)

theorem applyReset_mild (operand : Operand) : Mild p (p.applyReset assembler operand) := by
  unfold applyReset
  split
  · exact p.report_mild assembler (by decide)
  · split
    · exact p.report_mild assembler (by decide)
    · split
      · exact p.report_mild assembler (by decide)
      · exact (p.defineLabel_mild assembler _ _).trans ⟨rfl, rfl⟩

theorem fail_mild {key : Key} (mild : key.severity ≠ .fatal) : Mild p (p.fail assembler key) :=
  (p.report_mild assembler mild).trans ⟨rfl, rfl⟩

theorem encodeLine_mild (instruction : Instruction) :
    Mild p (p.encodeLine assembler instruction) := by
  unfold encodeLine
  split
  · exact p.fail_mild assembler (by decide)
  · split
    · exact ⟨rfl, rfl⟩
    · dsimp only
      have stated : Mild p (p.setStatement (.instruction (p.substitute instruction))) :=
        ⟨rfl, rfl⟩
      split
      · exact ⟨rfl, rfl⟩
      · rename_i refused
        exact stated.trans (fail_mild _ assembler (Instruction.encode_mild refused))

theorem readUnknown_mild (columns : Columns) : Mild p (p.readUnknown assembler columns) := by
  have commented : Mild p (if columns.command.kind = .comment then
      p.setComment (some columns.command.text) else p) := by
    split
    · exact ⟨rfl, rfl⟩
    · exact .refl p
  refine (commented.trans (defineOwnLabel_mild _ assembler)).trans ?_
  generalize labelled : (if columns.command.kind = .comment then
    p.setComment (some columns.command.text) else p).defineOwnLabel assembler = q
  unfold readUnknown
  dsimp only
  rw [labelled]
  split
  · exact .refl q
  · exact q.report_mild assembler (by decide)

end Mild

variable (running : p.Running)
include running

theorem Running.defineOwnLabel : (p.defineOwnLabel assembler).Running :=
  running.mild (defineOwnLabel_follows p assembler) (p.defineOwnLabel_mild assembler)

/-- A line for which there is no room stops the pass, before anything else can. -/
theorem Running.allocate {next : Pass → Pass}
    (follows : Follows p ((p.defineOwnLabel assembler).allocate assembler next))
    (mild : ∀ q : Pass, Mild q (next q)) :
    ((p.defineOwnLabel assembler).allocate assembler next).Judged := by
  have labelled := running.defineOwnLabel assembler
  unfold Pass.allocate at follows ⊢
  split
  · exact labelled.report assembler .tooLarge
  · rename_i room
    rw [if_neg room] at follows
    have occupied : Mild (p.defineOwnLabel assembler) (p.defineOwnLabel assembler).occupy :=
      ⟨rfl, rfl⟩
    exact .running (running.mild follows
      ((p.defineOwnLabel_mild assembler).trans (occupied.trans (mild _))))

theorem Running.applyStart (operand : Operand) : (p.applyStart assembler operand).Judged := by
  have begun : ∀ name load, (p.beginProgram name load).Judged :=
    fun _ _ => .running ⟨running.unhalted, running.clean, running.unemitted⟩
  unfold Pass.applyStart
  split
  · exact running.report assembler .secondStart
  · split <;> split
    · exact begun _ _
    · exact running.report assembler .startLabel
    · exact begun _ _
    · exact running.report assembler .startOperand

theorem Running.applyEnd (operand : Operand) : (p.applyEnd assembler operand).Judged := by
  have ignored : (p.ignoreLabel assembler).Running :=
    running.mild (ignoreLabel_follows p assembler) (p.ignoreLabel_mild assembler)
  unfold Pass.applyEnd
  dsimp only
  split
  · exact .running ⟨ignored.unhalted, ignored.clean, ignored.unemitted⟩
  · exact ignored.report assembler .endName

theorem Running.applyData (operand : Operand) : (p.applyData assembler operand).Judged := by
  refine running.allocate assembler (applyData_follows p assembler operand) fun q => ?_
  split
  · exact ⟨rfl, rfl⟩
  · split
    · exact .refl q
    · exact q.report_mild assembler (by decide)

theorem Running.applyConstant (operand : Operand) :
    (p.applyConstant assembler operand).Judged := by
  refine running.allocate assembler (applyConstant_follows p assembler operand) fun q => ?_
  split
  · exact q.report_mild assembler (by decide)
  · exact .refl q

theorem Running.applyIdle (operand : Operand) : (p.applyIdle assembler operand).Judged := by
  refine running.allocate assembler (applyIdle_follows p assembler operand) fun q => ?_
  have idle : Mild q (q.setWord Line.idleWord) := ⟨rfl, rfl⟩
  dsimp only
  split
  · exact idle
  · exact idle.trans (report_mild _ assembler (by decide))

theorem Running.applyDirective (directive : Directive) (operand : Operand) :
    (p.applyDirective assembler directive operand).Judged := by
  cases directive with
  | start => exact running.applyStart assembler operand
  | finish => exact running.applyEnd assembler operand
  | equ =>
    exact .running (running.mild (applyEquate_follows p assembler _ _)
      (p.applyEquate_mild assembler _ _))
  | eque =>
    exact .running (running.mild (applyEquate_follows p assembler _ _)
      (p.applyEquate_mild assembler _ _))
  | adc => exact running.applyConstant assembler operand
  | adce => exact running.applyConstant assembler operand
  | entry =>
    exact .running (running.mild (applyEntry_follows p assembler _)
      (p.applyEntry_mild assembler _))
  | extrn =>
    exact .running (running.mild (applyExternal_follows p assembler _)
      (p.applyExternal_mild assembler _))
  | reset =>
    exact .running (running.mild (applyReset_follows p assembler _)
      (p.applyReset_mild assembler _))
  | dat => exact running.applyData assembler operand
  | nop => exact running.applyIdle assembler operand

theorem Running.setStatement (statement : Statement) : (p.setStatement statement).Running :=
  ⟨running.unhalted, running.clean, running.unemitted⟩

theorem Running.readDirective (directive : Directive) (rest : Bytes) :
    (p.readDirective assembler directive rest).1.Judged := by
  have read := running.frame (readOperand_follows p assembler rest)
    (p.readOperand_frame assembler rest)
  exact (read.setStatement _).applyDirective assembler directive _

theorem Running.readInstruction (group : Group) (rest : Bytes) :
    (p.readInstruction assembler group rest).1.Judged := by
  have read := running.frame (readFunction_follows p assembler group rest)
    (p.readFunction_frame assembler group rest)
  have stated := read.setStatement (.instruction (p.readFunction assembler group rest).1)
  have follows := (defineOwnLabel_follows ((p.readFunction assembler group rest).2.2.setStatement
    (.instruction (p.readFunction assembler group rest).1)) assembler).trans
      (allocate_follows _ assembler _ fun q => encodeLine_follows q assembler
        (p.readFunction assembler group rest).1)
  exact stated.allocate assembler follows fun q => encodeLine_mild q assembler _

omit running in
/-- What follows the operand stops no pass, and after a fatal diagnostic it is not read. -/
theorem Judged.finishLine (judged : p.Judged) (rest : Bytes) :
    (p.finishLine assembler rest).Judged := by
  cases judged with
  | running running =>
    exact .running (running.frame (finishLine_follows p assembler rest)
      (p.finishLine_frame assembler rest))
  | halted diagnostic fault once unemitted =>
    have kept : p.finishLine assembler rest = p := by simp [Pass.finishLine, fault]
    rw [kept]
    exact .halted diagnostic fault once unemitted

omit running in
theorem Judged.noteLine (judged : p.Judged) : (p.noteLine assembler).Judged := by
  cases judged with
  | running running =>
    exact .running ⟨by simpa using running.unhalted, by simpa using running.clean,
      by simpa using running.unemitted⟩
  | halted diagnostic fault once unemitted =>
    exact .halted diagnostic (by simpa using fault) (by simpa using once) (by simpa using unemitted)

theorem Running.readCommand : (p.readCommand assembler).Judged := by
  have labelled : (p.readLabel assembler (assembler.columns p.line.source).label).Running :=
    running.mild (readLabel_follows p assembler _) (p.readLabel_mild assembler _)
  unfold Pass.readCommand
  dsimp only
  split
  · exact (labelled.readInstruction assembler _ _).finishLine assembler _
  · exact (labelled.readDirective assembler _ _).finishLine assembler _
  · exact .running (labelled.mild (readUnknown_follows _ assembler _)
      (readUnknown_mild _ assembler _))

/-- A line that is read is judged: at most one of its diagnostics is fatal, and stops the pass. -/
theorem Running.readLine : (p.readLine assembler).Judged := by
  rcases readLine_cases p assembler with ⟨key, _, refused⟩ | blank | ⟨_, _, command⟩
  · rw [refused]
    exact running.report assembler key
  · rw [blank]
    exact .running ⟨running.unhalted, running.clean, running.unemitted⟩
  · rw [command]
    exact running.readCommand assembler

end Pass

/-! ### Runs -/

/-- The lines of a source as they are recorded, without trailing carriage returns, and numbered. -/
def Lines.numbered (sources : List Bytes) : List (Bytes × Nat) :=
  (sources.map (dropTrailing Lines.isCarriageReturn)).zipIdx 1

theorem Lines.numbered_concat (sources : List Bytes) (source : Bytes) :
    numbered (sources ++ [source]) = numbered sources ++
      [(dropTrailing isCarriageReturn source, sources.length + 1)] := by
  simp [numbered, List.zipIdx_append, Nat.add_comm]

namespace Program

def recorded (program : Program) : List (Bytes × Nat) :=
  program.lines.map fun line => (line.source, line.number)

theorem exists_fatal_iff {program : Program} :
    (∃ line ∈ program.lines, line.has .fatal = true) ↔
      program.lines.flatMap Line.fatals ≠ [] := by
  simp [Line.has_fatal_iff, List.flatMap_eq_nil_iff]

/-- Reading came to the end of the source: every line is recorded, and no diagnostic is fatal. -/
structure Completes (program : Program) (sources : List Bytes) : Prop where
  recorded : program.recorded = Lines.numbered sources
  clean : program.lines.flatMap Line.fatals = []

/-- Reading stopped at a fault: its diagnostic is the only fatal one of the program, on the line
recorded last. A source without lines has an empty first one. -/
structure StopsAt (program : Program) (sources : List Bytes) (fault : FatalFault) : Prop where
  once : program.lines.flatMap Line.fatals = [fault.cause]
  last : ∃ last, program.lines.getLast? = some last ∧ last.fatals = [fault.cause] ∧
    last.number = fault.number ∧ last.source = fault.line
  recorded : sources ≠ [] → program.recorded <+: Lines.numbered sources
  absent : sources = [] → program.recorded = [([], 1)]

end Program

namespace Reading

/-- A reading goes on, or stopped at its fault. -/
inductive Judged (reading : Reading) (sources : List Bytes) : Prop
  | running (unhalted : reading.fatal = none) (completes : reading.program.Completes sources)
      (unemitted : reading.context.emitted = false)
  | halted (fault : FatalFault) (fatal : reading.fatal = some fault)
      (stops : reading.program.StopsAt sources fault) (unemitted : reading.context.emitted = false)

/-- The line after which a reading stops. -/
theorem stopsAt_of_halted {earlier : Reading} {p : Pass} {sources : List Bytes}
    {diagnostic : Diagnostic} (clean : earlier.program.lines.flatMap Line.fatals = [])
    (once : p.line.fatals = [diagnostic])
    (recorded : sources ≠ [] →
      earlier.program.recorded ++ [(p.line.source, p.line.number)] <+: Lines.numbered sources)
    (absent : sources = [] → earlier.lines = [] ∧ p.line.source = [] ∧ p.line.number = 1) :
    (afterPass p earlier.lines).program.StopsAt sources
      ⟨p.line.number, p.line.source, diagnostic⟩ := by
  have lines : (afterPass p earlier.lines).program.lines = earlier.program.lines ++ [p.line] :=
    List.reverse_cons
  refine ⟨?_, ⟨p.line, ?_, once, rfl, rfl⟩, fun nonempty => ?_, fun empty => ?_⟩
  · simp [lines, clean, once]
  · simp [lines]
  · rw [Program.recorded, lines, List.map_append]
    exact recorded nonempty
  · obtain ⟨unread, source, number⟩ := absent empty
    rw [Program.recorded, lines]
    simp [program, unread, source, number]

/-- What comes after the line of the fault does not count. -/
theorem stopsAt_append {program : Program} {sources : List Bytes} {fault : FatalFault}
    (stops : program.StopsAt sources fault) (nonempty : sources ≠ []) (source : Bytes) :
    program.StopsAt (sources ++ [source]) fault := by
  refine ⟨stops.once, stops.last, fun _ => ?_, by simp⟩
  rw [Lines.numbered_concat]
  exact (stops.recorded nonempty).trans (List.prefix_append _ _)

/-- The reading after one more line. -/
theorem judged_afterPass {earlier : Reading} {p : Pass} {sources : List Bytes} {source : Bytes}
    (judged : p.Judged) (completes : earlier.program.Completes sources)
    (trimmed : p.line.source = dropTrailing Lines.isCarriageReturn source)
    (number : p.line.number = sources.length + 1) :
    (afterPass p earlier.lines).Judged (sources ++ [source]) := by
  have recorded : earlier.program.recorded ++ [(p.line.source, p.line.number)] =
      Lines.numbered (sources ++ [source]) := by
    rw [Lines.numbered_concat, completes.recorded, trimmed, number]
  cases judged with
  | running running =>
    have lines : (afterPass p earlier.lines).program.lines = earlier.program.lines ++ [p.line] :=
      List.reverse_cons
    refine .running running.unhalted ⟨?_, ?_⟩ running.unemitted
    · rw [Program.recorded, lines, List.map_append]
      exact recorded
    · simp [lines, completes.clean, running.clean]
  | halted diagnostic fault once unemitted =>
    exact .halted _ fault (stopsAt_of_halted completes.clean once
      (fun _ => recorded ▸ List.prefix_rfl) (by simp)) unemitted

variable (assembler : Assembler) {reading : Reading}

theorem ofLines_judged (sources : List Bytes) : (ofLines assembler sources).Judged sources := by
  induction sources using List.reverseRecOn with
  | nil => exact .running rfl ⟨rfl, rfl⟩ rfl
  | append_singleton sources source ih =>
    rw [ofLines_concat]
    cases ih with
    | halted fault fatal stops unemitted =>
      have nonempty : sources ≠ [] := by
        rintro rfl
        cases fatal
      rw [add_of_halted assembler (by simp [fatal])]
      exact .halted fault fatal (stopsAt_append stops nonempty source) unemitted
    | running unhalted completes unemitted =>
      have fresh : ((ofLines assembler sources).fresh (source, sources.length + 1)).Running :=
        ⟨unhalted, rfl, unemitted⟩
      obtain ⟨added, reports⟩ := Pass.readLine_follows
        ((ofLines assembler sources).fresh (source, sources.length + 1)) assembler
      rw [add_of_running assembler unhalted]
      refine judged_afterPass ((fresh.readLine assembler).noteLine assembler) completes ?_ ?_
      · rw [Pass.noteLine_line]
        exact reports.source
      · rw [Pass.noteLine_line]
        exact reports.number

/-- At the end of a source a missing START stops the pass, and a missing END does not. -/
theorem finish_judged {sources : List Bytes} (judged : reading.Judged sources) :
    (reading.finish assembler).Judged sources := by
  cases judged with
  | halted fault fatal stops unemitted =>
    have same : reading.finish assembler = reading := by simp [finish, fatal]
    rw [same]
    exact .halted fault fatal stops unemitted
  | running unhalted completes unemitted =>
    have recorded := completes.recorded
    have clean := completes.clean
    cases lines : reading.lines with
    | nil =>
      have empty : sources = [] := by
        simpa [Program.recorded, program, lines, Lines.numbered] using recorded.symm
      have reported : reading.finish assembler =
          afterPass ((reading.pass (Line.unread 1 [] 0)).report assembler .noStart)
            reading.lines := by
        simp [finish, reportLast, unhalted, lines]
      have fresh : (reading.pass (Line.unread 1 [] 0)).Running := ⟨unhalted, rfl, unemitted⟩
      rw [reported]
      cases fresh.report assembler .noStart with
      | running running => exact absurd running.unhalted (by simp [Key.noStart])
      | halted diagnostic fault once unemitted =>
        exact .halted _ fault (stopsAt_of_halted clean once (absurd empty ·)
          fun _ => ⟨lines, by simp [pass, Line.unread]⟩) unemitted
    | cons last earlier =>
      cases ended : reading.context.ended with
      | true =>
        have same : reading.finish assembler = reading := by simp [finish, unhalted, lines, ended]
        rw [same]
        exact .running unhalted completes unemitted
      | false =>
        obtain ⟨going, finished⟩ := finish_of_unended assembler unhalted lines ended
        have mild : (last.unended assembler).fatals = last.fatals :=
          Line.fatals_append (by simp [Key.noEnd])
        have before : reading.program.lines = (last :: earlier).reverse :=
          congrArg List.reverse lines
        have context : (reading.finish assembler).context.emitted = false :=
          (congrArg (·.context.emitted) finished).trans unemitted
        refine .running going ⟨?_, ?_⟩ context
        · rw [← recorded, Program.recorded, Program.recorded, finished, before]
          simp [Line.unended]
        · rw [before] at clean
          rw [finished]
          simpa [mild] using clean

end Reading

/-! ### The second pass -/

theorem Resolution.remarks_mild (assembler : Assembler) {resolution : Resolution}
    (serious : ∀ key, resolution = .faulty key → key.severity = .serious) :
    ∀ diagnostic ∈ resolution.remarks assembler, diagnostic.key.severity ≠ .fatal := by
  intro diagnostic member
  cases resolution with
  | settled word flag => cases member
  | adjusted word adjustments =>
    simp only [remarks] at member
    split at member
    · rw [List.mem_singleton.1 member, Catalog.lookup_key]
      decide
    · cases member
  | faulty key =>
    rw [List.mem_singleton.1 member, Catalog.lookup_key, serious key rfl]
    decide

namespace Scope

variable (scope : Scope) (assembler : Assembler)

theorem remarks_mild (line : Line) :
    ∀ diagnostic ∈ scope.remarks assembler line, diagnostic.key.severity ≠ .fatal := by
  unfold remarks
  split
  · exact Resolution.remarks_mild assembler fun key failed => resolution_serious failed
  · simp

theorem lineAfter_fatals (line : Line) :
    (scope.lineAfter assembler line).fatals = line.fatals := by
  rw [Line.fatals, scope.lineAfter_diagnostics assembler line]
  exact Line.fatals_append (scope.remarks_mild assembler line)

end Scope

namespace Emission

variable (assembler : Assembler) (emission : Emission)

theorem exportEntry_fatals (symbol : Symbol) :
    (emission.exportEntry assembler symbol).lines.map Line.fatals =
      emission.lines.map Line.fatals := by
  unfold exportEntry
  split
  · split
    · rfl
    · obtain ⟨log, reported⟩ := reportEntry_eq assembler emission symbol.label
      have mild : ∀ line : Line, (withEntryRemarks assembler symbol.label line).fatals =
          line.fatals := by
        intro line
        refine Line.fatals_append fun diagnostic member => ?_
        unfold entryRemarks at member
        split at member
        · rw [List.mem_singleton.1 member, Catalog.lookup_key]
          decide
        · cases member
      rw [reported, List.map_map]
      exact List.map_congr_left fun line _ => mild line
  · rfl

theorem exportEntries_fatals :
    (emission.exportEntries assembler).lines.map Line.fatals =
      emission.lines.map Line.fatals := by
  unfold exportEntries
  generalize emission.symbols.symbols = symbols
  induction symbols generalizing emission with
  | nil => rfl
  | cons symbol later ih =>
    rw [List.foldl_cons, ih]
    exact exportEntry_fatals assembler emission symbol

end Emission

namespace Assembler

variable {assembler : Assembler} {text : Bytes}

/-- The second pass finds nothing fatal. -/
theorem emit_fatals {program : Program} {date : Date} {emitted : Emitted}
    (success : assembler.emit program date = .ok emitted) :
    emitted.program.context.fatal = program.context.fatal ∧
      emitted.program.lines.map Line.fatals = program.lines.map Line.fatals := by
  have emits := emit_exported success
  have lines : emitted.program.lines.map Line.fatals = program.lines.map Line.fatals := by
    rw [emits.lines, List.map_map]
    refine Eq.trans ?_ (Emission.exportEntries_fatals assembler (Emission.start program))
    exact List.map_congr_left fun line _ => program.scope.lineAfter_fatals assembler line
  obtain ⟨reported, context, serious, _⟩ := emits.context
  refine ⟨?_, lines⟩
  rw [context, Context.count]
  simp only [Bool.or_eq_left_iff_imp, List.any_eq_true, List.mem_append, decide_eq_true_eq]
  rintro ⟨diagnostic, member | member, fatal⟩
  · rw [serious diagnostic member] at fatal
    cases fatal
  · obtain ⟨line, _, remarked⟩ := List.mem_flatMap.1 member
    exact absurd fatal (program.scope.remarks_mild assembler line diagnostic remarked)

/-- The program of a short source is judged. -/
theorem parse_judged (assembler : Assembler) (short : (Lines.read text).tooLong = false) :
    (assembler.parse text).program.context.emitted = false ∧
      ((assembler.parse text).fault = none ∧
          (assembler.parse text).program.Completes (Lines.read text).lines ∨
        ∃ fault, (assembler.parse text).fault = some (.fatal fault) ∧
          (assembler.parse text).program.StopsAt (Lines.read text).lines fault) := by
  have judged := Reading.finish_judged assembler
    (Reading.ofLines_judged assembler (Lines.read text).lines)
  rw [parse_of_short assembler short]
  cases judged with
  | running unhalted completes unemitted =>
    exact ⟨unemitted, Or.inl ⟨congrArg (Option.map _) unhalted, completes⟩⟩
  | halted fault fatal stops unemitted =>
    exact ⟨unemitted, Or.inr ⟨fault, congrArg (Option.map _) fatal, stops⟩⟩

theorem emit_ok_iff (assembler : Assembler) (program : Program) (date : Date) :
    (∃ emitted, assembler.emit program date = .ok emitted) ↔ program.context.fatal = false ∧
      program.context.started = true ∧ program.context.emitted = false := by
  unfold emit
  split
  · rename_i refused
    simp only [Bool.or_eq_true, Bool.not_eq_true'] at refused
    constructor
    · rintro ⟨_, success⟩
      cases success
    · rintro ⟨running, started, _⟩
      simp [running, started] at refused
  · rename_i ready
    split <;> simp_all

/-- A source without a line that is too long has an object file just when it was read without a
fault and begins a program. -/
theorem assemble_ok_iff (short : (Lines.read text).tooLong = false) (date : Date) :
    (∃ file, (assembler.assemble text date).outcome = .ok file) ↔
      (assembler.parse text).fault = none ∧
        (assembler.parse text).program.context.started = true := by
  obtain ⟨unemitted, _⟩ := parse_judged assembler short
  constructor
  · rintro ⟨file, success⟩
    obtain ⟨read, emitted, emission, _⟩ := assemble_ok success
    exact ⟨read, (emit_exported emission).started⟩
  · rintro ⟨read, started⟩
    obtain ⟨emitted, emission⟩ := (assembler.emit_ok_iff (assembler.parse text).program date).2
      ⟨running_of_read read, started, unemitted⟩
    exact ⟨emitted.file, by simp [assemble, read, emission]⟩

/-- A fatal diagnostic stops the reading of a source whose lines are short enough, and is the only
one: it is on the line recorded last, and no line after that is recorded. Without one all lines are
recorded. The second pass adds none, and there is an object file just when the source was read
without a fault and a START directive began the program. -/
theorem fatal_once (assembler : Assembler) (text : Bytes)
    (short : (Lines.read text).tooLong = false) :
    ((∃ fault, (assembler.parse text).fault = some (.fatal fault)) ↔
        (assembler.parse text).program.context.fatal = true) ∧
      ((assembler.parse text).program.context.fatal = true ↔
        ∃ line ∈ (assembler.parse text).program.lines, line.has .fatal = true) ∧
      (∀ fault, (assembler.parse text).fault = some (.fatal fault) →
        (assembler.parse text).program.StopsAt (Lines.read text).lines fault) ∧
      ((assembler.parse text).program.context.fatal = false →
        (assembler.parse text).fault = none ∧
          (assembler.parse text).program.Completes (Lines.read text).lines) ∧
      (∀ program date emitted, assembler.emit program date = .ok emitted →
        emitted.program.context.fatal = program.context.fatal ∧
          emitted.program.lines.map Line.fatals = program.lines.map Line.fatals) ∧
      ∀ date, (∃ file, (assembler.assemble text date).outcome = .ok file) ↔
        (assembler.parse text).fault = none ∧
          (assembler.parse text).program.context.started = true := by
  have halted := assembler.parse_fatal text
  obtain ⟨_, judged⟩ := parse_judged assembler short
  refine ⟨halted.symm, ?_, ?_, ?_, fun _ _ _ => emit_fatals,
    assemble_ok_iff short⟩
  · rw [Program.exists_fatal_iff]
    rcases judged with ⟨read, completes⟩ | ⟨fault, failed, stops⟩
    · rw [running_of_read read, completes.clean]
      simp
    · rw [halted.2 ⟨fault, failed⟩, stops.once]
      simp
  · intro fault failed
    rcases judged with ⟨read, _⟩ | ⟨found, stopped, stops⟩
    · rw [read] at failed
      cases failed
    · rw [stopped] at failed
      cases failed
      exact stops
  · intro running
    rcases judged with read | ⟨fault, failed, _⟩
    · exact read
    · rw [halted.2 ⟨fault, failed⟩] at running
      cases running

end Assembler

/-- A source with more after its END: the last of these lines is never read. -/
def continuedSource : Bytes := ascii "PROG START 0\n END PROG\n NOP\n NOP"

theorem Assembler.fatal_once_continuedSource :
    (Lines.read continuedSource).tooLong = false ∧
      (∃ line ∈ (Assembler.parse {} continuedSource).program.lines, line.has .fatal = true) ∧
      ∃ fault, (Assembler.parse {} continuedSource).fault = some (.fatal fault) ∧
        (Assembler.parse {} continuedSource).program.lines.flatMap Line.fatals = [fault.cause] ∧
        fault.number = 3 := by
  have short : (Lines.read continuedSource).tooLong = false := by decide +kernel
  obtain ⟨fails, records, stops, _⟩ := Assembler.fatal_once {} continuedSource short
  have halted : (Assembler.parse {} continuedSource).program.context.fatal = true := by
    decide +kernel
  obtain ⟨fault, failed⟩ := fails.2 halted
  have number : ((Assembler.parse {} continuedSource).program.lines.getLast?).map (·.number) =
      some 3 := by decide +kernel
  have stopped := stops fault failed
  obtain ⟨last, latest, _, numbered, _⟩ := stopped.last
  rw [latest, Option.map_some, Option.some.injEq, numbered] at number
  exact ⟨short, records.1 halted, fault, failed, stopped.once, number⟩

end WordAssembler

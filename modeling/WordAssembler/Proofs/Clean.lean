import WordAssembler.Proofs.Bounds
import WordAssembler.Proofs.Layout
import WordAssembler.Proofs.Uppercase

/-!
Programs without errors. If the count of errors is zero at the end, it was zero after every line, no
line has an error, and the second pass found a word for each. The first line of such a program
begins it.
-/

set_option autoImplicit false

namespace WordAssembler

namespace Line

/-- The line has no diagnostic that counts as an error. -/
def Clean (line : Line) : Prop :=
  ∀ diagnostic ∈ line.diagnostics, diagnostic.key.severity.isError = false

theorem Clean.serious {line : Line} (clean : line.Clean) : line.has .serious = false := by
  simp only [Line.has, List.any_eq_false, beq_iff_eq]
  intro diagnostic member serious
  have mild := clean diagnostic member
  rw [serious] at mild
  cases mild

end Line

namespace Pass

theorem Follows.clean {p q : Pass} (follows : Follows p q) (quiet : p.line.diagnostics = [])
    (errors : q.context.errors = 0) : q.line.Clean := by
  obtain ⟨added, reports⟩ := follows
  have none : added.countP (·.key.severity.isError) = 0 := by
    have counted := reports.errors
    omega
  intro diagnostic member
  rw [reports.diagnostics, quiet, List.nil_append] at member
  simpa using List.countP_eq_zero.1 none diagnostic member

/-- The end of a line takes no error back. -/
theorem errors_of_finishLine {p : Pass} {assembler : Assembler} {rest : Bytes}
    (clean : (p.finishLine assembler rest).context.errors = 0) : p.context.errors = 0 := by
  have grown := (finishLine_settles p assembler rest).errors
  omega

end Pass

namespace Reading

variable {assembler : Assembler}

theorem add_errors_le (reading : Reading) (numbered : Bytes × Nat) :
    reading.context.errors ≤ (add assembler reading numbered).context.errors := by
  cases halted : reading.fatal.isSome with
  | true => rw [add_of_halted assembler halted]
  | false =>
    rw [add_context (by simpa using halted)]
    exact ((reading.fresh numbered).readLine_follows assembler).errors_le

theorem errors_le_append (assembler : Assembler) (sources more : List Bytes) :
    (ofLines assembler sources).context.errors ≤
      (ofLines assembler (sources ++ more)).context.errors := by
  induction more using List.reverseRecOn with
  | nil => rw [List.append_nil]
  | append_singleton more source ih =>
    rw [← List.append_assoc, ofLines_concat]
    exact Nat.le_trans ih (add_errors_le _ _)

/-- A source without errors has none before any of its lines. -/
theorem errors_of_append {sources more : List Bytes}
    (clean : (ofLines assembler (sources ++ more)).context.errors = 0) :
    (ofLines assembler sources).context.errors = 0 := by
  have grown := errors_le_append assembler sources more
  omega

theorem take_succ_of_getElem? {sources : List Bytes} {k : Nat} {source : Bytes}
    (here : sources[k]? = some source) : sources.take (k + 1) = sources.take k ++ [source] := by
  rw [List.take_add_one, here]
  rfl

theorem length_take_of_getElem? {sources : List Bytes} {k : Nat} {source : Bytes}
    (here : sources[k]? = some source) : (sources.take k).length = k := by
  have inside := (List.getElem?_eq_some_iff.1 here).1
  rw [List.length_take]
  omega

section Source

variable {sources : List Bytes} {k : Nat} {source : Bytes}

/-- Every line that was read comes from its source line, read where the pass had come to. -/
theorem stepped_of_line {line : Line}
    (read : (ofLines assembler sources).lines.reverse[k]? = some line) :
    ∃ source, sources[k]? = some source ∧ (ofLines assembler (sources.take k)).fatal = none ∧
      line = ((ofLines assembler (sources.take k)).stepped assembler (source, k + 1)).line := by
  induction sources using List.reverseRecOn with
  | nil => cases read
  | append_singleton sources last ih =>
    have earlier : (ofLines assembler sources).lines.reverse[k]? = some line →
        ∃ source, (sources ++ [last])[k]? = some source ∧
          (ofLines assembler ((sources ++ [last]).take k)).fatal = none ∧
          line = ((ofLines assembler ((sources ++ [last]).take k)).stepped assembler
            (source, k + 1)).line := by
      intro before
      obtain ⟨source, here, running, same⟩ := ih before
      have inside := (List.getElem?_eq_some_iff.1 here).1
      rw [List.getElem?_append_left inside, List.take_append_of_le_length (by omega)]
      exact ⟨source, here, running, same⟩
    rw [ofLines_concat] at read
    cases halted : (ofLines assembler sources).fatal.isSome with
    | true =>
      rw [add_of_halted assembler halted] at read
      exact earlier read
    | false =>
      have running : (ofLines assembler sources).fatal = none := by simpa using halted
      have length : (ofLines assembler sources).lines.reverse.length = sources.length := by
        rw [List.length_reverse, lines_length running]
      rw [add_lines running, List.reverse_cons, List.getElem?_append, length] at read
      split at read
      · exact earlier read
      · rename_i outside
        have end_ : k = sources.length := by
          have bound := (List.getElem?_eq_some_iff.1 read).1
          rw [List.length_singleton] at bound
          omega
        subst end_
        rw [Nat.sub_self] at read
        cases read
        rw [List.take_left]
        exact ⟨last, List.getElem?_concat_length, running, rfl⟩

theorem running_take (running : (ofLines assembler sources).fatal = none) (k : Nat) :
    (ofLines assembler (sources.take k)).fatal = none := by
  rw [← List.take_append_drop k sources] at running
  exact running_of_append assembler running

variable (here : sources[k]? = some source)
include here

/-- The source up to a line is read by reading the line after those before. -/
theorem ofLines_take_succ : ofLines assembler (sources.take (k + 1)) =
    add assembler (ofLines assembler (sources.take k)) (source, k + 1) := by
  rw [take_succ_of_getElem? here, ofLines_concat, length_take_of_getElem? here]

variable (running : (ofLines assembler sources).fatal = none)
include running

/-- The line that was read from a source line. -/
theorem line_of_source : (ofLines assembler sources).lines.reverse[k]? =
    some ((ofLines assembler (sources.take k)).stepped assembler (source, k + 1)).line := by
  have inside : k < (ofLines assembler sources).lines.reverse.length := by
    rw [List.length_reverse, lines_length running]
    exact (List.getElem?_eq_some_iff.1 here).1
  obtain ⟨said, known, _, same⟩ := stepped_of_line (List.getElem?_eq_getElem inside)
  rw [here] at known
  cases known
  rw [List.getElem?_eq_getElem inside, same]

/-- A line of a program without a fault was read without one. -/
theorem stepped_running :
    ((ofLines assembler (sources.take k)).stepped assembler (source, k + 1)).fatal = none := by
  have later := running_take running (k + 1)
  rwa [ofLines_take_succ here, add_fatal (running_take running k)] at later

/-- A line of a program without errors was read without an error. -/
theorem stepped_errors (clean : (ofLines assembler sources).context.errors = 0) :
    ((ofLines assembler (sources.take k)).stepped assembler (source, k + 1)).context.errors =
      0 := by
  have before := running_take running k
  rw [← List.take_append_drop (k + 1) sources] at clean
  have early := errors_of_append clean
  rwa [ofLines_take_succ here, add_context before] at early

end Source

end Reading

/-! ### The first line -/

theorem Directive.upper_of_parse? {text : Bytes} {directive : Directive}
    (parsed : Directive.parse? text = some directive) : upper text = directive.name := by
  have same := List.find?_some parsed
  exact (by simpa using same : directive.name = upper text).symm

namespace Assembler

variable {assembler : Assembler} {source : Bytes}

/-- The command of a source line is its first or its second token. -/
theorem command_of_columns (assembler : Assembler) (source : Bytes) :
    (assembler.columns source).command = (Token.next source).1 ∨
      startsLabel source = true ∧
        (assembler.columns source).command = (Token.next (Token.next source).2).1 := by
  unfold columns
  dsimp only
  split
  · rename_i labelled
    simp only [Bool.and_eq_true] at labelled
    exact Or.inr ⟨labelled.1, rfl⟩
  · exact Or.inl rfl

/-- The label column of a source line is its first token. -/
theorem label_of_columns (assembler : Assembler) (source : Bytes) :
    (assembler.columns source).label = none ∨
      (assembler.columns source).label = some (Token.next source).1 := by
  unfold columns
  dsimp only
  split
  · exact Or.inr rfl
  · exact Or.inl rfl

/-- A line with a command is not blank. -/
theorem isBlank_of_kind (filled : (assembler.columns source).command.kind ≠ .empty)
    (uncommented : (assembler.columns source).command.kind ≠ .comment) :
    Line.isBlank source = false := by
  cases blank : Line.isBlank source with
  | false => rfl
  | true =>
    have first : (Token.next source).1.kind = .empty ∨ (Token.next source).1.kind = .comment := by
      unfold Line.isBlank at blank
      unfold Token.next
      split at blank
      · rename_i nothing
        rw [nothing]
        exact Or.inl rfl
      · rename_i b rest start
        rw [start]
        refine Or.inr ?_
        simp only [Token.first]
        rw [if_pos (by simpa using blank)]
    have unlabelled : startsLabel source = false := by
      cases source with
      | nil => rfl
      | cons b rest =>
        by_cases gap : Bytes.isGap b = true
        · simp [startsLabel, gap]
        · have start : Bytes.dropGap (b :: rest) = b :: rest := by
            rw [Bytes.dropGap, List.dropWhile_cons_of_neg gap]
          simp only [Line.isBlank, start, beq_iff_eq] at blank
          simp [startsLabel, blank]
    rcases assembler.command_of_columns source with command | ⟨labelled, _⟩
    · rw [command] at filled uncommented
      rcases first with empty | comment
      · exact absurd empty filled
      · exact absurd comment uncommented
    · rw [unlabelled] at labelled
      cases labelled

theorem upper_of_isStart (isStart : assembler.isStart source = true) :
    upper (assembler.columns source).command.text = ascii "START" := by
  have looked : assembler.directives.lookup? (assembler.columns source).command.text =
      some .start := by simpa [Assembler.isStart] using isStart
  exact Directive.upper_of_parse? (Option.filter_eq_some_iff.1 looked).1

/-- A command with a name is neither missing nor a comment. -/
theorem kind_of_upper (named : upper (assembler.columns source).command.text ≠ [])
    (word : (upper (assembler.columns source).command.text).head? ≠ some (byte ':')) :
    (assembler.columns source).command.kind ≠ .empty ∧
      (assembler.columns source).command.kind ≠ .comment := by
  have read : ∃ line, (assembler.columns source).command = (Token.next line).1 := by
    rcases assembler.command_of_columns source with first | ⟨_, second⟩
    · exact ⟨_, first⟩
    · exact ⟨_, second⟩
  obtain ⟨line, command⟩ := read
  rw [command] at named word ⊢
  refine ⟨?_, ?_⟩
  · intro empty
    rw [Token.text_of_empty empty] at named
    exact named rfl
  · intro comment
    have colon := Token.head_of_next_comment comment
    cases text : (Token.next line).1.text with
    | nil =>
      rw [text] at colon
      cases colon
    | cons first rest =>
      rw [text] at colon word
      rw [show first = byte ':' from Option.some.inj colon] at word
      exact word (head?_upper_colon rest)

/-- A line that is taken for START has a command. -/
theorem kind_of_isStart (isStart : assembler.isStart source = true) :
    (assembler.columns source).command.kind ≠ .empty ∧
      (assembler.columns source).command.kind ≠ .comment := by
  have start := upper_of_isStart isStart
  exact kind_of_upper (by rw [start]; decide) (by rw [start]; decide)

/-- A line that is taken for START is one, or has a name that is no word. -/
theorem command?_of_isStart (isStart : assembler.isStart source = true) :
    assembler.command? (assembler.columns source).command = some (.directive .start) ∨
      assembler.command? (assembler.columns source).command = none := by
  have start := upper_of_isStart isStart
  have looked : assembler.directives.lookup? (assembler.columns source).command.text =
      some .start := by simpa [Assembler.isStart] using isStart
  have group : assembler.opcodes.group? (assembler.columns source).command.text = none := by
    have none : Group.parse? (assembler.columns source).command.text = none := by
      rw [Group.parse?, start]
      decide
    rw [Opcodes.group?, none]
    rfl
  unfold Assembler.command?
  split
  · rw [group, looked]
    exact Or.inl rfl
  · exact Or.inr rfl

end Assembler

namespace Pass

variable (p : Pass) (assembler : Assembler)

theorem readOperand_wellFormed (rest : Bytes)
    (errors : (p.readOperand assembler rest).2.2.context.errors = 0) :
    (p.readOperand assembler rest).1.kind ≠ .malformed := by
  intro malformed
  have bad : (Operand.ofToken (Token.next rest).1).kind = .malformed := malformed
  simp only [readOperand, bad, ↓reduceIte] at errors
  exact absurd errors (report_errors_ne _ assembler rfl)

theorem applyStart_started (operand : Operand)
    (errors : (p.applyStart assembler operand).context.errors = 0) :
    (p.applyStart assembler operand).context.started = true := by
  have reported : ∀ key : Key, key.severity.isError = true →
      (p.report assembler key).context.errors = 0 →
      (p.report assembler key).context.started = true :=
    fun key isError errors => absurd errors (report_errors_ne p assembler isError)
  unfold applyStart at errors ⊢
  repeat' split
  all_goals simp only [*, ↓reduceIte] at errors
  · exact reported .secondStart rfl errors
  · rfl
  · exact reported .startLabel rfl errors
  · rfl
  · exact reported .startOperand rfl errors

/-- An unknown command is an error, if there is one at all. -/
theorem readUnknown_errors (columns : Columns) (filled : columns.command.kind ≠ .empty)
    (uncommented : columns.command.kind ≠ .comment) :
    (p.readUnknown assembler columns).context.errors ≠ 0 := by
  unfold readUnknown
  simp only [uncommented, filled, ↓reduceIte, or_self, and_false]
  exact report_errors_ne _ assembler rfl

theorem readCommand_started (isStart : assembler.isStart p.line.source = true)
    (errors : (p.readCommand assembler).context.errors = 0) :
    (p.readCommand assembler).context.started = true := by
  obtain ⟨filled, uncommented⟩ := Assembler.kind_of_isStart isStart
  rcases Assembler.command?_of_isStart isStart with command | unknown
  · rw [readCommand_directive rfl command] at errors ⊢
    have applied : ∀ q : Pass, ∀ rest,
        (q.readDirective assembler .start rest).1.context.errors = 0 →
        (q.readDirective assembler .start rest).1.context.started = true :=
      fun q rest => applyStart_started _ assembler _
    have started := applied (p.readLabel assembler (assembler.columns p.line.source).label)
      (assembler.columns p.line.source).rest
    generalize (p.readLabel assembler (assembler.columns p.line.source).label).readDirective
      assembler .start (assembler.columns p.line.source).rest = result at errors started ⊢
    rw [(finishLine_settles result.1 assembler result.2).program.started]
    exact started (errors_of_finishLine errors)
  · rw [readCommand_unknown rfl unknown] at errors
    exact absurd errors (readUnknown_errors _ assembler _ filled uncommented)

/-- The first line of a program without errors begins it. -/
theorem readLine_started (first : p.line.number = 1) (unended : p.context.ended = false)
    (errors : (p.readLine assembler).context.errors = 0) :
    (p.readLine assembler).context.started = true := by
  unfold readLine at errors ⊢
  split at errors
  · exact absurd errors (report_errors_ne p assembler rfl)
  · rename_i isStart
    have isStart : assembler.isStart p.line.source = true := by simpa [first] using isStart
    obtain ⟨filled, uncommented⟩ := Assembler.kind_of_isStart isStart
    have nonblank := Assembler.isBlank_of_kind filled uncommented
    simp only [unended, nonblank, isStart, first] at errors ⊢
    exact readCommand_started p assembler isStart errors

end Pass

/-- A source without errors begins the program on its first line. -/
theorem Reading.started_of_clean {assembler : Assembler} {sources : List Bytes}
    (nonempty : sources ≠ []) (clean : (ofLines assembler sources).context.errors = 0) :
    (ofLines assembler (sources.take 1)).context.started = true := by
  cases sources with
  | nil => exact absurd rfl nonempty
  | cons source more =>
    rw [← List.singleton_append] at clean
    have early := errors_of_append clean
    rw [ofLines_singleton, afterPass, Pass.noteLine_context] at early
    rw [List.take_succ_cons, List.take_zero, ofLines_singleton, afterPass, Pass.noteLine_context]
    exact Pass.readLine_started _ assembler rfl rfl early

/-! ### Programs -/

namespace Reading

variable {assembler : Assembler} {reading : Reading} {program : Program}

theorem Closed.errors (closed : reading.Closed assembler program) :
    program.context.errors = reading.context.errors := by
  cases closed with
  | ended same =>
    rw [same]
    rfl
  | unended last earlier lines same =>
    rw [same]
    simp [Context.count, Key.noEnd, Severity.isError]

theorem Closed.symbols (closed : reading.Closed assembler program) :
    program.symbols = reading.symbols := by
  cases closed with
  | ended same =>
    rw [same]
    rfl
  | unended last earlier lines same => rw [same]

/-- The bounds hold of the program as read. -/
theorem Closed.bounded (closed : reading.Closed assembler program)
    (bounded : Bounded reading.context reading.symbols) :
    Bounded program.context program.symbols := by
  have errors := closed.errors
  rw [closed.symbols]
  cases closed with
  | ended same =>
    rw [same]
    exact bounded
  | unended last earlier lines same =>
    refine ⟨?_, ?_, ?_, bounded.values, ?_⟩
    · rw [same]
      exact bounded.start
    · rw [same]
      exact bounded.lower
    · rw [same]
      exact bounded.upper
    · rw [errors]
      exact bounded.addresses

/-- A line of the program as read is that of its source, with more diagnostics at most. -/
theorem Closed.line_of_reading (closed : reading.Closed assembler program) {k : Nat} {line : Line}
    (found : reading.lines.reverse[k]? = some line) :
    ∃ diagnostics, line.diagnostics <+: diagnostics ∧
      program.lines[k]? = some { line with diagnostics := diagnostics } := by
  cases closed with
  | ended same =>
    rw [same]
    exact ⟨line.diagnostics, List.prefix_refl _, found⟩
  | unended last earlier lines same =>
    rw [lines, List.reverse_cons, List.getElem?_append] at found
    rw [same, List.reverse_cons, List.getElem?_append]
    split at found
    · rename_i inside
      rw [if_pos inside]
      exact ⟨line.diagnostics, List.prefix_refl _, found⟩
    · rename_i outside
      rw [if_neg outside]
      obtain ⟨rfl, zero⟩ : last = line ∧ k - earlier.reverse.length = 0 := by
        cases place : k - earlier.reverse.length with
        | zero =>
          rw [place] at found
          exact ⟨Option.some.inj found, rfl⟩
        | succ n =>
          rw [place] at found
          cases found
      rw [zero]
      exact ⟨_, List.prefix_append _ _, rfl⟩

end Reading

/-- The second pass over a program without errors only resolves the words. -/
theorem Emits.clean {assembler : Assembler} {program : Program} {exported : List Line}
    {emitted : Emitted} (emits : Emits assembler program exported emitted)
    (clean : emitted.program.context.errors = 0) :
    program.context.errors = 0 ∧ exported = program.lines ∧
      ∀ line ∈ program.lines, line.addressed = true →
        ∀ key, program.scope.resolution line ≠ .faulty key := by
  obtain ⟨reported, context, serious, silent⟩ := emits.context
  rw [context, Context.count] at clean
  simp only [List.countP_append, Nat.add_eq_zero_iff] at clean
  obtain ⟨before, none, remarked⟩ := clean
  have quiet : reported = [] := by
    cases reported with
    | nil => rfl
    | cons diagnostic rest =>
      have severe := serious diagnostic List.mem_cons_self
      have mild := List.countP_eq_zero.1 none diagnostic List.mem_cons_self
      rw [severe] at mild
      exact absurd rfl mild
  have same := silent quiet
  refine ⟨before, same, ?_⟩
  intro line member addressed key faulty
  rw [same] at remarked
  have mild := List.countP_eq_zero.1 remarked (assembler.catalog.lookup key)
    (List.mem_flatMap.2 ⟨line, member, by simp [Scope.remarks, addressed, faulty,
      Resolution.remarks]⟩)
  rw [Catalog.lookup_key, Scope.resolution_serious faulty] at mild
  exact absurd rfl mild

end WordAssembler

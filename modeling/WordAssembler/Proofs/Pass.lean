import WordAssembler.Assembly.Reading
import WordAssembler.Assembly.Resolution

/-!
What the operations of a pass change. Reports add diagnostics to the line and count them; remarks
do no more than that and set the comment. Every operation of a pass follows from the one before it
by a list of reports, which is what its counters and its fault are accounted by.
-/

set_option autoImplicit false

namespace WordAssembler

@[simp] theorem Catalog.lookup_key (catalog : Catalog) (key : Key) :
    (catalog.lookup key).key = key := by
  unfold Catalog.lookup Catalog.get?
  cases catalog.message? key <;> rfl

/-- The severities that are counted as errors. -/
def Severity.isError : Severity → Bool
  | .fatal | .serious => true
  | _ => false

namespace Context

/-- The state after diagnostics were counted. -/
def count (context : Context) (added : List Diagnostic) : Context :=
  { context with
    errors := context.errors + added.countP (·.key.severity.isError)
    warnings := context.warnings + added.countP (·.key.severity = .warning)
    fatal := context.fatal || added.any (·.key.severity = .fatal) }

@[simp] theorem count_nil (context : Context) : context.count [] = context := by
  simp [count]

theorem count_append (context : Context) (first second : List Diagnostic) :
    (context.count first).count second = context.count (first ++ second) := by
  simp only [count, List.countP_append, List.any_append, Nat.add_assoc, Bool.or_assoc]

theorem tally_eq_count (context : Context) (diagnostic : Diagnostic) :
    context.tally diagnostic.key.severity = context.count [diagnostic] := by
  cases severity : diagnostic.key.severity <;>
    simp [tally, count, severity, Severity.isError]

end Context

namespace Pass

variable (p : Pass) (assembler : Assembler)

attribute [simp] mapLine mapContext setStatement setComment setWord setFlag invalidate

@[simp] theorem note_context (entry : Bytes) : (p.note assembler entry).context = p.context := by
  unfold note
  split <;> rfl

@[simp] theorem note_symbols (entry : Bytes) : (p.note assembler entry).symbols = p.symbols := by
  unfold note
  split <;> rfl

@[simp] theorem note_line (entry : Bytes) : (p.note assembler entry).line = p.line := by
  unfold note
  split <;> rfl

@[simp] theorem note_fatal (entry : Bytes) : (p.note assembler entry).fatal = p.fatal := by
  unfold note
  split <;> rfl

@[simp] theorem report_context (key : Key) :
    (p.report assembler key).context = p.context.count [assembler.catalog.lookup key] := by
  rw [← Context.tally_eq_count, Catalog.lookup_key]
  simp [report]

@[simp] theorem report_symbols (key : Key) :
    (p.report assembler key).symbols = p.symbols := by
  simp [report]

@[simp] theorem report_line (key : Key) :
    (p.report assembler key).line =
      { p.line with diagnostics := p.line.diagnostics ++ [assembler.catalog.lookup key] } := by
  simp [report]

@[simp] theorem report_fatal (key : Key) :
    (p.report assembler key).fatal =
      if key.severity = .fatal then
        p.fatal.or (some ⟨p.line.number, p.line.source, assembler.catalog.lookup key⟩)
      else p.fatal := by
  simp [report]

@[simp] theorem noteLine_context : (p.noteLine assembler).context = p.context := by
  unfold noteLine
  split <;> simp

@[simp] theorem noteLine_symbols : (p.noteLine assembler).symbols = p.symbols := by
  unfold noteLine
  split <;> simp

@[simp] theorem noteLine_line : (p.noteLine assembler).line = p.line := by
  unfold noteLine
  split <;> simp

@[simp] theorem noteLine_fatal : (p.noteLine assembler).fatal = p.fatal := by
  unfold noteLine
  split <;> simp

/-! ### Remarks -/

/-- One pass is another after remarks on the line: diagnostics were added and counted, and the
comment may have been set. -/
structure Remarks (p q : Pass) (added : List Diagnostic) : Prop where
  context : q.context = p.context.count added
  symbols : q.symbols = p.symbols
  line : ∃ comment, q.line =
    { p.line with comment := comment, diagnostics := p.line.diagnostics ++ added }
  fatal : q.fatal.isSome = (p.fatal.isSome || added.any (·.key.severity = .fatal))

theorem Remarks.refl : Remarks p p [] :=
  ⟨by simp, rfl, ⟨p.line.comment, by simp⟩, by simp⟩

theorem Remarks.trans {p q r : Pass} {first second : List Diagnostic} (left : Remarks p q first)
    (right : Remarks q r second) : Remarks p r (first ++ second) := by
  obtain ⟨firstComment, firstLine⟩ := left.line
  obtain ⟨secondComment, secondLine⟩ := right.line
  refine ⟨?_, right.symbols.trans left.symbols, ⟨secondComment, ?_⟩, ?_⟩
  · rw [right.context, left.context, Context.count_append]
  · rw [secondLine, firstLine]
    simp only [List.append_assoc]
  · rw [right.fatal, left.fatal, List.any_append, Bool.or_assoc]

theorem report_remarks (key : Key) :
    Remarks p (p.report assembler key) [assembler.catalog.lookup key] := by
  refine ⟨by simp, by simp, ⟨p.line.comment, by simp⟩, ?_⟩
  by_cases severe : key.severity = .fatal <;> simp [severe]

theorem setComment_remarks (comment : Option Bytes) : Remarks p (p.setComment comment) [] :=
  ⟨by simp, rfl, ⟨comment, by simp⟩, by simp⟩

/-! ### Reports -/

/-- One pass is another after work on the same line that reported some diagnostics. -/
structure Reports (p q : Pass) (added : List Diagnostic) : Prop where
  errors : q.context.errors = p.context.errors + added.countP (·.key.severity.isError)
  warnings : q.context.warnings = p.context.warnings + added.countP (·.key.severity = .warning)
  halted : q.context.fatal = (p.context.fatal || added.any (·.key.severity = .fatal))
  fatal : q.fatal.isSome = (p.fatal.isSome || added.any (·.key.severity = .fatal))
  diagnostics : q.line.diagnostics = p.line.diagnostics ++ added
  number : q.line.number = p.line.number
  source : q.line.source = p.line.source

theorem Reports.trans {p q r : Pass} {first second : List Diagnostic} (left : Reports p q first)
    (right : Reports q r second) : Reports p r (first ++ second) := by
  refine ⟨?_, ?_, ?_, ?_, ?_, right.number.trans left.number, right.source.trans left.source⟩
  · rw [right.errors, left.errors, List.countP_append, Nat.add_assoc]
  · rw [right.warnings, left.warnings, List.countP_append, Nat.add_assoc]
  · rw [right.halted, left.halted, List.any_append, Bool.or_assoc]
  · rw [right.fatal, left.fatal, List.any_append, Bool.or_assoc]
  · rw [right.diagnostics, left.diagnostics, List.append_assoc]

theorem Remarks.reports {p q : Pass} {added : List Diagnostic} (remarks : Remarks p q added) :
    Reports p q added := by
  obtain ⟨comment, line⟩ := remarks.line
  refine ⟨?_, ?_, ?_, remarks.fatal, ?_, ?_, ?_⟩
  · rw [remarks.context, Context.count]
  · rw [remarks.context, Context.count]
  · rw [remarks.context, Context.count]
  all_goals rw [line]

/-- One pass comes from another by work on the same line. -/
def Follows (p q : Pass) : Prop := ∃ added, Reports p q added

theorem Remarks.follows {p q : Pass} {added : List Diagnostic} (remarks : Remarks p q added) :
    Follows p q := ⟨added, remarks.reports⟩

/-- What the reports of a pass are counted in. -/
def account (p : Pass) :
    Nat × Nat × Bool × Option FatalFault × List Diagnostic × Nat × Bytes :=
  (p.context.errors, p.context.warnings, p.context.fatal, p.fatal, p.line.diagnostics,
    p.line.number, p.line.source)

/-- Work that reports nothing. -/
theorem Follows.silent {p q : Pass} (same : q.account = p.account) : Follows p q := by
  simp only [account, Prod.mk.injEq] at same
  obtain ⟨errors, warnings, halted, fatal, diagnostics, number, source⟩ := same
  exact ⟨[], by simp [errors], by simp [warnings], by simp [halted], by simp [fatal],
    by simp [diagnostics], number, source⟩

theorem Follows.refl : Follows p p := .silent rfl

theorem Follows.trans {p q r : Pass} (left : Follows p q) (right : Follows q r) :
    Follows p r := by
  obtain ⟨first, reportsFirst⟩ := left
  obtain ⟨second, reportsSecond⟩ := right
  exact ⟨first ++ second, reportsFirst.trans reportsSecond⟩

theorem Follows.errors_le {p q : Pass} (follows : Follows p q) :
    p.context.errors ≤ q.context.errors := by
  obtain ⟨added, reports⟩ := follows
  rw [reports.errors]
  omega

theorem report_follows (key : Key) : Follows p (p.report assembler key) :=
  (report_remarks p assembler key).follows

theorem fail_follows (key : Key) : Follows p (p.fail assembler key) :=
  (report_follows p assembler key).trans (.silent rfl)

/-- No diagnostic is on the line. -/
def Quiet (p : Pass) : Prop := p.line.diagnostics = []

theorem Follows.quiet {p q : Pass} (follows : Follows p q) (quiet : q.Quiet) : p.Quiet := by
  obtain ⟨added, reports⟩ := follows
  rw [Quiet, reports.diagnostics, List.append_eq_nil_iff] at quiet
  exact quiet.1

theorem report_not_quiet (key : Key) : ¬ (p.report assembler key).Quiet := by
  simp [Quiet]

/-- An error is counted. -/
theorem report_errors_ne {key : Key} (isError : key.severity.isError = true) :
    (p.report assembler key).context.errors ≠ 0 := by
  simp [Context.count, isError]

end Pass

end WordAssembler

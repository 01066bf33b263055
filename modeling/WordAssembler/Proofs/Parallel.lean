import WordAssembler.Proofs.Alike
import WordAssembler.Proofs.Emission

/-!
Two second passes over related lines. If exporting an entry says the same of related lines and keeps
them related, and if related lines give the same records, then two programs with related lines and
the same symbols are emitted to the same object file.
-/

set_option autoImplicit false

namespace WordAssembler

/-- The lines give the same records in both lists, and the same is said of them. -/
structure Scope.Agrees (scope : Scope) (assembler : Assembler) (lines others : List Line) :
    Prop where
  remarks : others.flatMap (scope.remarks assembler) = lines.flatMap (scope.remarks assembler)
  linking : others.filterMap scope.linking? = lines.filterMap scope.linking?
  records : (others.filter (·.addressed)).map (scope.record assembler) =
    (lines.filter (·.addressed)).map (scope.record assembler)
  modifications : others.filterMap scope.modification? = lines.filterMap scope.modification?

namespace Emission

/-! ### Records -/

/-- Two emissions with the same records so far, of the same program. -/
structure SameRecords (first second : Emission) : Prop where
  context : second.context.uncounted = first.context.uncounted
  symbols : second.symbols = first.symbols
  linking : second.linking = first.linking
  text : second.text = first.text
  modifications : second.modifications = first.modifications

section SameRecords

variable {assembler : Assembler} {first second : Emission} (same : SameRecords first second)
include same

theorem SameRecords.file (date : Date) :
    second.file assembler date = first.file assembler date := by
  obtain ⟨context, symbols, linking, text, modifications⟩ := same
  have program : second.context.program = first.context.program :=
    (congrArg Context.program context :)
  have start : second.context.start = first.context.start := (congrArg Context.start context :)
  have length : second.context.length = first.context.length :=
    (congrArg Context.length context :)
  simp only [Emission.file, Emission.header, program, start, length, linking, text, modifications]

theorem SameRecords.scope : second.scope = first.scope := by
  have program : second.context.program = first.context.program :=
    (congrArg Context.program same.context :)
  have start : second.context.start = first.context.start :=
    (congrArg Context.start same.context :)
  have location : second.context.location = first.context.location :=
    (congrArg Context.location same.context :)
  unfold Emission.scope
  rw [same.symbols, program, start, location]

/-- Lines that agree add the same records. -/
theorem SameRecords.addLines (agrees : first.scope.Agrees assembler first.lines second.lines) :
    SameRecords (first.addLines assembler) (second.addLines assembler) := by
  have scope : ({ second with lines := [] } : Emission).scope =
      ({ first with lines := [] } : Emission).scope := same.scope
  have left := addLines_adds assembler first
  have right := addLines_adds assembler second
  refine ⟨?_, ?_, ?_, ?_, ?_⟩
  · rw [right.context, left.context, scope]
    exact agrees.remarks ▸ Context.uncounted_count same.context _
  · rw [right.symbols, left.symbols]
    exact same.symbols
  · apply List.reverse_inj.1
    rw [right.linking, left.linking, scope]
    exact congrArg₂ (·.reverse ++ ·) same.linking agrees.linking
  · apply List.reverse_inj.1
    rw [right.text, left.text, scope]
    exact congrArg₂ (·.reverse ++ ·) same.text agrees.records
  · apply List.reverse_inj.1
    rw [right.modifications, left.modifications, scope]
    exact congrArg₂ (·.reverse ++ ·) same.modifications agrees.modifications

end SameRecords

/-! ### Entries -/

/-- Of related lines the same is said if an entry has no address, and they stay related. -/
def ExportsAlike (assembler : Assembler) (related : List Line → List Line → Prop) : Prop :=
  ∀ label lines others, related lines others →
    others.flatMap (entryRemarks assembler label) = lines.flatMap (entryRemarks assembler label) ∧
      related (lines.map (withEntryRemarks assembler label))
        (others.map (withEntryRemarks assembler label))

/-- Two emissions with the same records so far, of the same program, with related lines. -/
structure Relates (related : List Line → List Line → Prop) (first second : Emission) : Prop
    extends SameRecords first second where
  lines : related first.lines second.lines

namespace Relates

variable {assembler : Assembler} {related : List Line → List Line → Prop}
  (alike : ExportsAlike assembler related) {first second : Emission}
include alike

theorem reportEntry (relates : Relates related first second) (label : Bytes) :
    Relates related (first.reportEntry assembler label) (second.reportEntry assembler label) := by
  obtain ⟨_, left⟩ := reportEntry_eq assembler first label
  obtain ⟨_, right⟩ := reportEntry_eq assembler second label
  obtain ⟨remarks, remarked⟩ := alike label _ _ relates.lines
  rw [left, right]
  refine ⟨⟨?_, relates.symbols, relates.linking, relates.text, relates.modifications⟩, remarked⟩
  rw [remarks]
  exact Context.uncounted_count relates.context _

theorem exportEntry (relates : Relates related first second) (symbol : Symbol) :
    Relates related (first.exportEntry assembler symbol)
      (second.exportEntry assembler symbol) := by
  have program : second.context.program = first.context.program :=
    (congrArg Context.program relates.context :)
  unfold Emission.exportEntry
  split
  · split
    · refine ⟨⟨relates.context, relates.symbols, ?_, relates.text, relates.modifications⟩,
        relates.lines⟩
      rw [program, relates.linking]
    · exact relates.reportEntry alike _
  · exact relates

theorem exportEntries (relates : Relates related first second) :
    Relates related (first.exportEntries assembler) (second.exportEntries assembler) := by
  unfold Emission.exportEntries
  rw [relates.symbols]
  generalize first.symbols.symbols = symbols
  induction symbols generalizing first second with
  | nil => exact relates
  | cons symbol later ih => exact ih (relates.exportEntry alike symbol)

end Relates

end Emission

/-! ### Programs -/

namespace Assembler

variable {assembler : Assembler} {program other : Program} {date : Date} {emitted : Emitted}
  (context : other.context.uncounted = program.context.uncounted)
include context

/-- A program is emitted if a program is whose state differs in the counts of diagnostics only. -/
theorem emit_of_uncounted (success : assembler.emit program date = .ok emitted) :
    emitted = ⟨(Emission.run assembler program).program,
        (Emission.run assembler program).file assembler date,
        (Emission.run assembler program).log.reverse⟩ ∧
      assembler.emit other date = .ok ⟨(Emission.run assembler other).program,
        (Emission.run assembler other).file assembler date,
        (Emission.run assembler other).log.reverse⟩ := by
  have fatal : other.context.fatal = program.context.fatal := (congrArg Context.fatal context :)
  have started : other.context.started = program.context.started :=
    (congrArg Context.started context :)
  have before : other.context.emitted = program.context.emitted :=
    (congrArg Context.emitted context :)
  unfold emit at success ⊢
  rw [fatal, started, before]
  split at success
  · cases success
  · rename_i ready
    split at success
    · cases success
    · rename_i fresh
      cases success
      rw [if_neg ready, if_neg fresh]
      exact ⟨rfl, rfl⟩

/-- Programs with related lines are emitted to the same object file, and their lines are resolved
from lines that are related. -/
theorem emit_related {related : List Line → List Line → Prop}
    (alike : Emission.ExportsAlike assembler related)
    (agrees : ∀ lines others, related lines others → program.scope.Agrees assembler lines others)
    (symbols : other.symbols = program.symbols) (lines : related program.lines other.lines)
    (success : assembler.emit program date = .ok emitted) :
    ∃ another, assembler.emit other date = .ok another ∧ another.file = emitted.file ∧
      another.program.symbols = emitted.program.symbols ∧
      ∃ exported reexported, related exported reexported ∧
        emitted.program.lines = exported.map (program.scope.lineAfter assembler) ∧
        another.program.lines = reexported.map (program.scope.lineAfter assembler) := by
  have marked : ∀ context : Context, { context with emitted := true }.uncounted =
      { context.uncounted with emitted := true } := fun _ => rfl
  have started : Emission.Relates related (Emission.start program) (Emission.start other) := by
    refine ⟨⟨?_, symbols, rfl, rfl, rfl⟩, lines⟩
    rw [Emission.start, Emission.start, marked, marked, context]
  have exported := started.exportEntries alike
  have exports := Emission.exportEntries_exports assembler (Emission.start program)
  have scope : ((Emission.start program).exportEntries assembler).scope = program.scope := by
    obtain ⟨reported, counted, _⟩ := exports.context
    simp only [Emission.scope, counted, exports.symbols]
    rfl
  have rescope : other.scope = program.scope := started.toSameRecords.scope
  have same : Emission.SameRecords (Emission.run assembler program)
      (Emission.run assembler other) := by
    apply exported.toSameRecords.addLines
    rw [scope]
    exact agrees _ _ exported.lines
  have first := (emit_exported success).lines
  obtain ⟨rfl, again⟩ := emit_of_uncounted context success
  have second := (emit_exported again).lines
  rw [rescope] at second
  exact ⟨_, again, same.file date, same.symbols, _, _, exported.lines, first, second⟩

end Assembler

end WordAssembler

import WordAssembler.Assembly.Emission
import WordAssembler.Proofs.Resolution

/-!
The second pass as maps over the lines. Exporting the entries adds diagnostics to ENTRY lines at
most; then each line with a word is resolved by itself, and the records of the object file are those
of the lines, in order.
-/

set_option autoImplicit false

namespace WordAssembler

/-- What the lines of a program are resolved against. -/
def Program.scope (program : Program) : Scope :=
  ⟨⟨program.symbols, program.context.program⟩, program.context.start, program.context.location⟩

namespace Scope

variable (scope : Scope) (assembler : Assembler)

def lineAfter (line : Line) : Line :=
  if line.addressed then (scope.resolution line).line assembler line else line

def remarks (line : Line) : List Diagnostic :=
  if line.addressed then (scope.resolution line).remarks assembler else []

def modification? (line : Line) : Option Modification :=
  if line.addressed then
    (scope.resolution line).modification? scope.evaluator.program line.location
  else none

def record (line : Line) : TextRecord :=
  Emission.textRecord scope.evaluator.program (scope.lineAfter assembler line)
    (((scope.modification? line).map Modification.size).getD 0)

def linking? (line : Line) : Option Linking :=
  if line.addressed then none else Emission.resetLinking? scope.evaluator.program line

end Scope

/-- A line after the entries were exported: only an ENTRY line may have got diagnostics. -/
inductive Line.Exported (line : Line) : Line → Prop
  | same : line.Exported line
  | remarked (operand : Operand) (added : List Diagnostic)
      (entry : line.directive? = some (.entry, operand)) :
      line.Exported { line with diagnostics := line.diagnostics ++ added }

theorem Line.Exported.trans {first second third : Line} (left : first.Exported second)
    (right : second.Exported third) : first.Exported third := by
  cases left with
  | same => exact right
  | remarked operand added entry =>
    cases right with
    | same => exact .remarked operand added entry
    | remarked _ more _ =>
      rw [List.append_assoc]
      exact .remarked operand (added ++ more) entry

def Symbol.linking? (program : Bytes) (symbol : Symbol) : Option Linking :=
  if symbol.usage = .entry then symbol.location.map (⟨symbol.label, ·, program⟩) else none

namespace Emission

/-- What the lines of an emission are resolved against. -/
def scope (emission : Emission) : Scope :=
  ⟨⟨emission.symbols, emission.context.program⟩, emission.context.start, emission.context.location⟩

/-! ### Lines -/

/-- An emission after some more lines. -/
structure Adds (assembler : Assembler) (before after : Emission) (added : List Line) : Prop where
  context : after.context =
    before.context.count (added.flatMap (before.scope.remarks assembler))
  symbols : after.symbols = before.symbols
  lines : after.lines.reverse =
    before.lines.reverse ++ added.map (before.scope.lineAfter assembler)
  linking : after.linking.reverse =
    before.linking.reverse ++ added.filterMap before.scope.linking?
  text : after.text.reverse =
    before.text.reverse ++ (added.filter (·.addressed)).map (before.scope.record assembler)
  modifications : after.modifications.reverse =
    before.modifications.reverse ++ added.filterMap before.scope.modification?

section Adds

variable {assembler : Assembler} {first second third : Emission} {added more : List Line}

theorem Adds.refl (assembler : Assembler) (emission : Emission) :
    Adds assembler emission emission [] :=
  ⟨by simp, rfl, by simp, by simp, by simp, by simp⟩

theorem Adds.scope (adds : Adds assembler first second added) : second.scope = first.scope := by
  unfold Emission.scope
  rw [adds.context, adds.symbols]
  rfl

theorem Adds.trans (left : Adds assembler first second added)
    (right : Adds assembler second third more) : Adds assembler first third (added ++ more) := by
  have scope := left.scope
  refine ⟨?_, right.symbols.trans left.symbols, ?_, ?_, ?_, ?_⟩
  · rw [right.context, left.context, scope, Context.count_append, List.flatMap_append]
  · rw [right.lines, left.lines, scope, List.map_append, List.append_assoc]
  · rw [right.linking, left.linking, scope, List.filterMap_append, List.append_assoc]
  · rw [right.text, left.text, scope, List.filter_append, List.map_append, List.append_assoc]
  · rw [right.modifications, left.modifications, scope, List.filterMap_append, List.append_assoc]

end Adds

/-- Putting what a line gives before a list kept latest first. -/
theorem reverse_toList_append {β : Type} (give : Line → Option β) (line : Line) (kept : List β) :
    ((give line).toList ++ kept).reverse = kept.reverse ++ [line].filterMap give := by
  rw [List.reverse_append]
  cases given : give line <;> simp [given]

variable (assembler : Assembler) (emission : Emission)

theorem addWord_adds (line : Line) (addressed : line.addressed = true) :
    Adds assembler emission (emission.addWord assembler line) [line] := by
  have scope : (emission.pass line).scope = emission.scope := rfl
  obtain ⟨resolved, modification, context, symbols⟩ := (emission.pass line).resolve_eq assembler
  rw [scope] at resolved modification context
  unfold addWord
  generalize (emission.pass line).resolve assembler = result
    at resolved modification context symbols
  obtain ⟨p, modification?⟩ := result
  dsimp only at resolved modification context symbols ⊢
  subst modification
  have after : emission.scope.lineAfter assembler line = p.line := by
    rw [Scope.lineAfter, if_pos addressed, resolved]
    rfl
  have modified : emission.scope.modification? line =
      (emission.scope.resolution line).modification? emission.context.program line.location := by
    rw [Scope.modification?, if_pos addressed]
    rfl
  refine ⟨?_, rfl, ?_, ?_, ?_, ?_⟩
  · simp [afterPass, context, Scope.remarks, addressed, pass]
  · simp [afterPass, after]
  · simp [afterPass, Scope.linking?, addressed]
  · simp [afterPass, addressed, Scope.record, after, modified, pass]
    rfl
  · rw [← reverse_toList_append, modified]
    rfl

theorem add_adds (line : Line) : Adds assembler emission (emission.add assembler line) [line] := by
  unfold add
  split
  · rename_i addressed
    exact addWord_adds assembler emission line addressed
  · rename_i unaddressed
    refine ⟨?_, rfl, ?_, ?_, ?_, ?_⟩
    · simp [Scope.remarks, unaddressed]
    · simp [Scope.lineAfter, unaddressed]
    · rw [← reverse_toList_append, Scope.linking?, if_neg unaddressed]
      rfl
    · simp [unaddressed]
    · simp [Scope.modification?, unaddressed]

/-- All lines are emitted one after the other. -/
theorem addLines_adds :
    Adds assembler { emission with lines := [] } (emission.addLines assembler) emission.lines := by
  have folded : ∀ (lines : List Line) (done : Emission),
      Adds assembler done (lines.foldl (add assembler) done) lines := by
    intro lines
    induction lines with
    | nil => exact fun done => .refl assembler done
    | cons line later ih =>
      intro done
      exact (add_adds assembler done line).trans (ih (done.add assembler line))
  exact folded emission.lines { emission with lines := [] }

/-! ### Entries -/

/-- The diagnostics of a line for an entry without location. -/
def entryRemarks (label : Bytes) (line : Line) : List Diagnostic :=
  if namesEntry label line then [assembler.catalog.lookup .entryUndefined] else []

/-- The line with its diagnostics for an entry without location. -/
def withEntryRemarks (label : Bytes) (line : Line) : Line :=
  { line with diagnostics := line.diagnostics ++ entryRemarks assembler label line }

theorem reportEntry_eq (label : Bytes) : ∃ log, emission.reportEntry assembler label =
    { emission with
      context := emission.context.count (emission.lines.flatMap (entryRemarks assembler label))
      lines := emission.lines.map (withEntryRemarks assembler label)
      log := log } := by
  have folded : ∀ (lines : List Line) (visited : Emission), ∃ log,
      lines.foldl (fun (visited : Emission) line =>
        let p := visited.pass line
        visited.afterPass
          (if namesEntry label line then p.report assembler .entryUndefined else p)) visited =
      { visited with
        context := visited.context.count (lines.flatMap (entryRemarks assembler label))
        lines := (lines.map (withEntryRemarks assembler label)).reverse ++ visited.lines
        log := log } := by
    intro lines
    induction lines with
    | nil => exact fun visited => ⟨visited.log, by simp⟩
    | cons line later ih =>
      intro visited
      obtain ⟨log, rest⟩ := ih (visited.afterPass (if namesEntry label line then
        (visited.pass line).report assembler .entryUndefined else visited.pass line))
      refine ⟨log, ?_⟩
      rw [List.foldl_cons, rest]
      by_cases named : namesEntry label line = true
      · simp [named, afterPass, pass, withEntryRemarks, entryRemarks, Context.count_append]
      · simp [named, afterPass, pass, withEntryRemarks, entryRemarks]
  obtain ⟨log, visited⟩ := folded emission.lines { emission with lines := [] }
  refine ⟨log, ?_⟩
  unfold reportEntry
  rw [visited]
  simp

theorem withEntryRemarks_exported (label : Bytes) (line : Line) :
    line.Exported (withEntryRemarks assembler label line) := by
  unfold withEntryRemarks entryRemarks
  split
  · rename_i named
    unfold namesEntry at named
    split at named
    · rename_i directive operand found
      simp only [Bool.and_eq_true, beq_iff_eq] at named
      rw [named.1] at found
      exact .remarked operand _ found
    · cases named
  · simpa using .same

/-- An emission after some entries were exported. -/
structure Exports (before after : Emission) (visited : List Symbol) : Prop where
  symbols : after.symbols = before.symbols
  text : after.text = before.text
  modifications : after.modifications = before.modifications
  linking : after.linking.reverse =
    before.linking.reverse ++ visited.filterMap (·.linking? before.context.program)
  lines : ∃ change : Line → Line, (∀ line : Line, line.Exported (change line)) ∧
    after.lines = before.lines.map change
  context : ∃ reported, after.context = before.context.count reported ∧
    (∀ diagnostic ∈ reported, diagnostic.key.severity = .serious) ∧
    (reported = [] → after.lines = before.lines)

theorem Exports.refl : Exports emission emission [] :=
  ⟨rfl, rfl, rfl, by simp, ⟨id, fun _ => .same, by simp⟩, [], by simp, by simp, fun _ => rfl⟩

theorem Exports.trans {first second third : Emission} {symbols more : List Symbol}
    (left : Exports first second symbols) (right : Exports second third more) :
    Exports first third (symbols ++ more) := by
  obtain ⟨change, exported, lines⟩ := left.lines
  obtain ⟨change', exported', lines'⟩ := right.lines
  obtain ⟨reported, context, serious, silent⟩ := left.context
  obtain ⟨reported', context', serious', silent'⟩ := right.context
  refine ⟨right.symbols.trans left.symbols, right.text.trans left.text,
    right.modifications.trans left.modifications, ?_, ?_, reported ++ reported', ?_, ?_, ?_⟩
  · rw [right.linking, left.linking, context, List.filterMap_append, List.append_assoc]
    rfl
  · refine ⟨change' ∘ change, fun line => (exported line).trans (exported' _), ?_⟩
    rw [lines', lines, List.map_map]
  · rw [context', context, Context.count_append]
  · intro diagnostic member
    rcases List.mem_append.1 member with first | second
    · exact serious diagnostic first
    · exact serious' diagnostic second
  · intro none
    obtain ⟨first, second⟩ := List.append_eq_nil_iff.1 none
    rw [silent' second, silent first]

theorem exportEntry_exports (symbol : Symbol) :
    Exports emission (emission.exportEntry assembler symbol) [symbol] := by
  unfold exportEntry
  split
  · rename_i entry
    split
    · rename_i location located
      refine ⟨rfl, rfl, rfl, ?_, ⟨id, fun _ => .same, by simp⟩, [], by simp, by simp, fun _ => rfl⟩
      simp [Symbol.linking?, entry, located]
    · rename_i unlocated
      obtain ⟨log, reported⟩ := reportEntry_eq assembler emission symbol.label
      rw [reported]
      refine ⟨rfl, rfl, rfl, ?_, ⟨_, withEntryRemarks_exported assembler symbol.label, rfl⟩,
        _, rfl, ?_, ?_⟩
      · simp [Symbol.linking?, entry, unlocated]
      · intro diagnostic member
        obtain ⟨line, _, remarked⟩ := List.mem_flatMap.1 member
        unfold entryRemarks at remarked
        split at remarked
        · rw [List.mem_singleton.1 remarked, Catalog.lookup_key]
          rfl
        · cases remarked
      · intro none
        have quiet := List.flatMap_eq_nil_iff.1 none
        have unchanged : ∀ line ∈ emission.lines,
            withEntryRemarks assembler symbol.label line = line := by
          intro line member
          rw [withEntryRemarks, quiet line member, List.append_nil]
        exact (List.map_congr_left unchanged).trans (List.map_id _)
  · rename_i other
    refine ⟨rfl, rfl, rfl, ?_, ⟨id, fun _ => .same, by simp⟩, [], by simp, by simp, fun _ => rfl⟩
    simp [Symbol.linking?, other]

/-- Symbols are exported one after the other. -/
theorem foldl_exports (symbols : List Symbol) :
    Exports emission (symbols.foldl (exportEntry assembler) emission) symbols := by
  induction symbols generalizing emission with
  | nil => exact .refl emission
  | cons symbol later ih =>
    have here := exportEntry_exports assembler emission symbol
    exact here.trans (ih (emission.exportEntry assembler symbol))

theorem exportEntries_exports :
    Exports emission (emission.exportEntries assembler) emission.symbols.symbols :=
  foldl_exports assembler emission _

end Emission

/-! ### Object files -/

/-- An emitted program and its object file, line by line. -/
structure Emits (assembler : Assembler) (program : Program) (exported : List Line)
    (emitted : Emitted) : Prop where
  running : program.context.fatal = false
  started : program.context.started = true
  change : ∃ change : Line → Line, (∀ line : Line, line.Exported (change line)) ∧
    exported = program.lines.map change
  context : ∃ reported, emitted.program.context =
      { program.context with emitted := true }.count
        (reported ++ exported.flatMap (program.scope.remarks assembler)) ∧
    (∀ diagnostic ∈ reported, diagnostic.key.severity = .serious) ∧
    (reported = [] → exported = program.lines)
  lines : emitted.program.lines = exported.map (program.scope.lineAfter assembler)
  text : emitted.file.text =
    (exported.filter (·.addressed)).map (program.scope.record assembler)
  modifications : emitted.file.modifications = exported.filterMap program.scope.modification?
  linking : emitted.file.linking =
    program.symbols.symbols.filterMap (·.linking? program.context.program) ++
      exported.filterMap program.scope.linking?

/-- A program that is emitted is emitted line by line, after its entries were exported. -/
theorem Assembler.emit_exported {assembler : Assembler} {program : Program} {date : Date}
    {emitted : Emitted} (success : assembler.emit program date = .ok emitted) :
    Emits assembler program ((Emission.start program).exportEntries assembler).lines emitted := by
  unfold emit at success
  split at success
  · cases success
  · rename_i ready
    have ready : program.context.fatal = false ∧ program.context.started = true := by
      simpa using ready
    split at success
    · cases success
    · cases success
      have exports := Emission.exportEntries_exports assembler (Emission.start program)
      have adds := Emission.addLines_adds assembler
        ((Emission.start program).exportEntries assembler)
      obtain ⟨reported, context, serious, silent⟩ := exports.context
      have scope : ({ (Emission.start program).exportEntries assembler with lines := [] } :
          Emission).scope = program.scope := by
        simp only [Emission.scope, context, exports.symbols]
        rfl
      have text := exports.text
      have modifications := exports.modifications
      have linking := exports.linking
      refine ⟨ready.1, ready.2, exports.lines, ⟨reported, ?_, serious, silent⟩, ?_, ?_, ?_, ?_⟩
      · rw [Emission.program, Emission.run, adds.context, scope]
        simp only [context, Context.count_append]
        rfl
      · rw [Emission.program, Emission.run, adds.lines, scope]
        rfl
      · rw [Emission.file, Emission.run, adds.text, scope]
        simp only [text]
        rfl
      · rw [Emission.file, Emission.run, adds.modifications, scope]
        simp only [modifications]
        rfl
      · rw [Emission.file, Emission.run, adds.linking, scope]
        simp only [linking]
        rfl

theorem Assembler.emit_emits {assembler : Assembler} {program : Program} {date : Date}
    {emitted : Emitted} (success : assembler.emit program date = .ok emitted) :
    ∃ exported, Emits assembler program exported emitted :=
  ⟨_, emit_exported success⟩

/-- The parts of a source that was assembled. -/
theorem Assembler.assemble_ok {assembler : Assembler} {text : Bytes} {date : Date}
    {file : ObjectFile} (success : (assembler.assemble text date).outcome = .ok file) :
    (assembler.parse text).fault = none ∧
      ∃ emitted, assembler.emit (assembler.parse text).program date = .ok emitted ∧
        (assembler.assemble text date).program = emitted.program ∧ emitted.file = file := by
  unfold assemble at success ⊢
  dsimp only at success ⊢
  split at success
  · cases success
  · rename_i read
    split at success
    · cases success
    · rename_i emitted emission
      cases success
      exact ⟨read, emitted, emission, by simp [*], rfl⟩

end WordAssembler

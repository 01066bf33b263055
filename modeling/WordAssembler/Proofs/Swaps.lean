import WordAssembler.Proofs.Parallel
import WordAssembler.Proofs.Substitution

/-!
Lines with a name and lines with its number on the second pass. Once a line is read, the name in it
matters only where the line is resolved, and there it counts for its number. So two programs whose
lines differ in nothing else have the same records, and the same is said of their lines.
-/

set_option autoImplicit false

namespace WordAssembler

open Expression

/-! ### Statements -/

/-- An operand that names a symbol, and the operand that has the number in its place. -/
inductive Operand.Swaps (name : Bytes) (value : Nat) : Operand → Operand → Prop
  | whole : Swaps name value ⟨name, .symbol, 0⟩ ⟨Numeral.digits 10 value, .number, value⟩
  | term {first second : Bytes} (kind : Token.kindOf first = .expression)
      (replaces : Replaces name (Numeral.digits 10 value) first second) :
      Swaps name value ⟨first, .expression, 0⟩ ⟨second, .expression, 0⟩

/-- A statement that names a symbol, and the statement that has the number in its place. Equates and
RESET are done with, and may have any operands; an instruction has the value of its symbol. -/
inductive Statement.Swaps (name : Bytes) (value : Nat) : Statement → Statement → Prop
  | done {directive : Directive}
      (kind : directive = .equ ∨ directive = .eque ∨ directive = .reset) (operand other : Operand) :
      Swaps name value (.directive directive operand) (.directive directive other)
  | constant {directive : Directive} (kind : directive = .adc ∨ directive = .adce)
      {operand other : Operand} (swaps : operand.Swaps name value other) :
      Swaps name value (.directive directive operand) (.directive directive other)
  | whole (group : Group) (function : Bytes) :
      Swaps name value
        (.instruction ⟨group, function, ⟨name, .symbol, value⟩, some name, 0⟩)
        (.instruction ⟨group, function, ⟨Numeral.digits 10 value, .number, value⟩, none, 0⟩)
  | term (group : Group) (function : Bytes) {first second : Bytes}
      (kind : Token.kindOf first = .expression)
      (replaces : Replaces name (Numeral.digits 10 value) first second) :
      Swaps name value (.instruction ⟨group, function, ⟨first, .expression, 0⟩, none, 0⟩)
        (.instruction ⟨group, function, ⟨second, .expression, 0⟩, none, 0⟩)

namespace Scope

variable {scope : Scope} {name : Bytes} {value : Nat}
  (means : scope.evaluator.symbols.Means name value)
include means

/-- An address constant with the number in the place of the name. -/
theorem resolveDirective_swaps {directive : Directive}
    (kind : directive = .adc ∨ directive = .adce) {operand other : Operand}
    (swaps : operand.Swaps name value other) (word : Word) (location : Int) :
    scope.resolveDirective word location directive other =
      scope.resolveDirective word location directive operand := by
  cases swaps with
  | whole =>
    have limit : (0 : Int) ≤ directive.operatorLimit := by
      rcases kind with rfl | rfl <;> decide
    have constant := Evaluator.constant_name means location limit
    have converted : Word.ofInt (Word.convert value Word.bits) = Word.ofInt value := by
      have small := means.small
      apply Word.ofInt_convert _ small
      simp only [Word.lastAddress]
      omega
    unfold resolveDirective
    rw [if_pos kind, if_pos kind]
    simp [Operand.Kind.isNumeric, Operand.Kind.isLiteral, resolveConstant, constant, isOutside,
      converted]
  | term spelled replaces =>
    have constant := Evaluator.constant_replaces means replaces location directive.operatorLimit
    unfold resolveDirective
    simp only [resolveConstant, constant]

/-- A line with the number in the place of the name resolves as the line does. -/
theorem resolution_swaps {line other : Line} {first second : Statement}
    (swaps : first.Swaps name value second) (said : line.statement = some first)
    (again : other.statement = some second) (word : other.word = line.word)
    (location : other.location = line.location) :
    scope.resolution other = scope.resolution line := by
  unfold resolution
  rw [said, again, word, location]
  cases swaps with
  | done kind operand other =>
    rcases kind with rfl | rfl | rfl <;> rfl
  | constant kind swaps => exact resolveDirective_swaps means kind swaps _ _
  | whole group function => rfl
  | term group function kind replaces =>
    have operand := Evaluator.operand_replaces means replaces kind line.location
    simp only [resolveInstruction, resolveExpression, operand]

end Scope

/-! ### Lines -/

/-- A line of which something is said has no linking record. -/
theorem Emission.resetLinking?_of_diagnostics {program : Bytes} {line : Line}
    (said : line.diagnostics ≠ []) : resetLinking? program line = none := by
  unfold resetLinking?
  split
  · exact if_neg (by simpa using said)
  · rfl

/-- The line but for its number, its text, its comment and its statement. -/
def Line.unstated (line : Line) : Line := { line.bare with statement := none }

/-- RESET lines to the same address have the same linking record. -/
theorem Emission.resetLinking?_congr {program : Bytes} {first second : Line}
    {operand other : Operand} (said : first.statement = some (.directive .reset operand))
    (again : second.statement = some (.directive .reset other))
    (target : other.value = operand.value) (unstated : second.unstated = first.unstated) :
    resetLinking? program second = resetLinking? program first := by
  have label : second.label = first.label := (congrArg Line.label unstated :)
  have diagnostics : second.diagnostics = first.diagnostics :=
    (congrArg Line.diagnostics unstated :)
  unfold resetLinking? Line.directive?
  rw [said, again, label, diagnostics]
  dsimp only
  rw [target]

/-- Two lines of which the second may have the number in the place of the name. -/
structure Line.Swaps (name : Bytes) (value : Nat) (line other : Line) : Prop where
  unstated : other.unstated = line.unstated
  statement : other.statement = line.statement ∨ ∃ first second : Statement,
    first.Swaps name value second ∧ line.statement = some first ∧ other.statement = some second
  linking : ∀ program, Emission.resetLinking? program other = Emission.resetLinking? program line

namespace Line

variable {name : Bytes} {value : Nat} {line other : Line}

theorem swaps_of_bare (same : other.bare = line.bare) : line.Swaps name value other where
  unstated := congrArg (fun line : Line => { line with statement := none }) same
  statement := Or.inl (congrArg Line.statement same :)
  linking program := (congrArg (Emission.resetLinking? program) same :)

namespace Swaps

variable (swaps : line.Swaps name value other)
include swaps

theorem addressed : other.addressed = line.addressed := (congrArg Line.addressed swaps.unstated :)

theorem diagnostics : other.diagnostics = line.diagnostics :=
  (congrArg Line.diagnostics swaps.unstated :)

theorem label : other.label = line.label := (congrArg Line.label swaps.unstated :)

/-- The same is said of both lines. -/
theorem remark (added : List Diagnostic) :
    Swaps name value { line with diagnostics := line.diagnostics ++ added }
      { other with diagnostics := other.diagnostics ++ added } where
  unstated := by
    have remarked : ∀ line : Line, { line with diagnostics := line.diagnostics ++ added }.unstated =
        { line.unstated with diagnostics := line.unstated.diagnostics ++ added } := fun _ => rfl
    rw [remarked, remarked, swaps.unstated]
  statement := swaps.statement
  linking := by
    intro program
    cases added with
    | nil =>
      rw [List.append_nil, List.append_nil]
      exact swaps.linking program
    | cons diagnostic more =>
      rw [Emission.resetLinking?_of_diagnostics (by simp),
        Emission.resetLinking?_of_diagnostics (by simp)]

theorem namesEntry (label : Bytes) :
    Emission.namesEntry label other = Emission.namesEntry label line := by
  unfold Emission.namesEntry directive?
  rcases swaps.statement with same | ⟨first, second, statements, said, again⟩
  · rw [same]
  · rw [said, again]
    cases statements with
    | done kind operand other => rcases kind with rfl | rfl | rfl <;> rfl
    | constant kind operands => rcases kind with rfl | rfl <;> rfl
    | whole group function => rfl
    | term group function kind replaces => rfl

theorem isInvalidated : other.isInvalidated = line.isInvalidated := by
  unfold Line.isInvalidated
  rcases swaps.statement with same | ⟨first, second, statements, said, again⟩
  · rw [same]
  · rw [said, again]
    cases statements <;> rfl

/-- Against a program in which the name stands for the number, the lines resolve alike. -/
theorem resolution {scope : Scope} (means : scope.evaluator.symbols.Means name value) :
    scope.resolution other = scope.resolution line := by
  have word : other.word = line.word := (congrArg Line.word swaps.unstated :)
  have location : other.location = line.location := (congrArg Line.location swaps.unstated :)
  rcases swaps.statement with same | ⟨first, second, statements, said, again⟩
  · unfold Scope.resolution
    rw [same, word, location]
  · exact Scope.resolution_swaps means statements said again word location

end Swaps

end Line

namespace Scope

variable {scope : Scope} {assembler : Assembler} {name : Bytes} {value : Nat}
  (means : scope.evaluator.symbols.Means name value)
include means

section Line

variable {line other : Line} (swaps : line.Swaps name value other)
include swaps

theorem remarks_swaps : scope.remarks assembler other = scope.remarks assembler line := by
  unfold remarks
  rw [swaps.addressed, swaps.resolution means]

theorem modification?_swaps : scope.modification? other = scope.modification? line := by
  have location : other.location = line.location := (congrArg Line.location swaps.unstated :)
  unfold modification?
  rw [swaps.addressed, swaps.resolution means, location]

omit means in
theorem linking?_swaps : scope.linking? other = scope.linking? line := by
  unfold linking?
  rw [swaps.addressed, swaps.linking]

theorem lineAfter_swaps :
    (scope.lineAfter assembler other).unstated = (scope.lineAfter assembler line).unstated := by
  have resolved : ∀ (resolution : Resolution) (line : Line),
      (resolution.line assembler line).unstated =
        (resolution.line assembler line.unstated).unstated := by
    intro resolution line
    cases resolution <;> rfl
  unfold lineAfter
  rw [swaps.addressed, swaps.resolution means]
  split
  · rw [resolved, swaps.unstated, ← resolved]
  · exact swaps.unstated

theorem record_swaps : scope.record assembler other = scope.record assembler line := by
  have after : (scope.lineAfter assembler other).unstated =
      (scope.lineAfter assembler line).unstated := lineAfter_swaps means swaps
  have recorded : ∀ line adjustments, Emission.textRecord scope.evaluator.program line adjustments =
      Emission.textRecord scope.evaluator.program line.unstated adjustments := fun _ _ => rfl
  unfold record
  rw [modification?_swaps means swaps, recorded, after, ← recorded]

end Line

variable {lines others : List Line} (swaps : List.Forall₂ (Line.Swaps name value) lines others)
include swaps

theorem flatMap_remarks_swaps :
    others.flatMap (scope.remarks assembler) = lines.flatMap (scope.remarks assembler) := by
  induction swaps with
  | nil => rfl
  | cons here _ ih => rw [List.flatMap_cons, List.flatMap_cons, remarks_swaps means here, ih]

omit means in
theorem filterMap_linking?_swaps :
    others.filterMap scope.linking? = lines.filterMap scope.linking? := by
  induction swaps with
  | nil => rfl
  | cons here _ ih => rw [List.filterMap_cons, List.filterMap_cons, linking?_swaps here, ih]

theorem filterMap_modification?_swaps :
    others.filterMap scope.modification? = lines.filterMap scope.modification? := by
  induction swaps with
  | nil => rfl
  | cons here _ ih =>
    rw [List.filterMap_cons, List.filterMap_cons, modification?_swaps means here, ih]

theorem map_record_swaps : (others.filter (·.addressed)).map (scope.record assembler) =
    (lines.filter (·.addressed)).map (scope.record assembler) := by
  induction swaps with
  | nil => rfl
  | cons here _ ih =>
    rw [List.filter_cons, List.filter_cons, here.addressed]
    split
    · rw [List.map_cons, List.map_cons, record_swaps means here, ih]
    · exact ih

theorem map_keys_swaps : (others.map (scope.lineAfter assembler)).map Line.keys =
    (lines.map (scope.lineAfter assembler)).map Line.keys := by
  induction swaps with
  | nil => rfl
  | @cons line other _ _ here _ ih =>
    have keys : (scope.lineAfter assembler other).keys = (scope.lineAfter assembler line).keys :=
      (congrArg Line.keys (lineAfter_swaps means here) :)
    rw [List.map_cons, List.map_cons, List.map_cons, List.map_cons, ih, keys]

end Scope

/-! ### The second pass -/

/-- Exporting an entry says the same of both lines. -/
theorem Emission.exportsAlike_swaps (assembler : Assembler) (name : Bytes) (value : Nat) :
    ExportsAlike assembler (List.Forall₂ (Line.Swaps name value)) := by
  intro label lines others swaps
  have remarks : ∀ line other : Line, line.Swaps name value other →
      entryRemarks assembler label other = entryRemarks assembler label line := by
    intro line other swaps
    unfold entryRemarks
    rw [swaps.namesEntry]
  constructor
  · induction swaps with
    | nil => rfl
    | cons here _ ih => rw [List.flatMap_cons, List.flatMap_cons, remarks _ _ here, ih]
  · rw [List.forall₂_map_left_iff, List.forall₂_map_right_iff]
    refine swaps.imp fun line other here => ?_
    unfold withEntryRemarks
    rw [remarks line other here]
    exact here.remark _

/-- The program with the number in the place of the name is emitted as the program is. -/
theorem Assembler.emit_swaps {assembler : Assembler} {program other : Program} {name : Bytes}
    {value : Nat} {date : Date} {emitted : Emitted}
    (context : other.context.uncounted = program.context.uncounted)
    (symbols : other.symbols = program.symbols)
    (lines : List.Forall₂ (Line.Swaps name value) program.lines other.lines)
    (means : program.symbols.Means name value)
    (success : assembler.emit program date = .ok emitted) :
    ∃ another, assembler.emit other date = .ok another ∧ another.file = emitted.file ∧
      another.program.lines.map Line.keys = emitted.program.lines.map Line.keys := by
  have known : program.scope.evaluator.symbols.Means name value := means
  have agrees : ∀ lines others, List.Forall₂ (Line.Swaps name value) lines others →
      program.scope.Agrees assembler lines others := by
    intro lines others swaps
    exact ⟨Scope.flatMap_remarks_swaps known swaps, Scope.filterMap_linking?_swaps swaps,
      Scope.map_record_swaps known swaps, Scope.filterMap_modification?_swaps known swaps⟩
  obtain ⟨another, again, file, _, exported, reexported, swaps, before, after⟩ :=
    emit_related context (Emission.exportsAlike_swaps assembler name value) agrees symbols lines
      success
  refine ⟨another, again, file, ?_⟩
  rw [before, after]
  exact Scope.map_keys_swaps known swaps

end WordAssembler

import WordAssembler.Proofs.Pass

/-!
Resolution of a line as a function of the line and of what it is resolved against. The word is
settled with a flag, or left to the linker with adjustments, or given up for a serious fault.
-/

set_option autoImplicit false

namespace WordAssembler

open Expression

/-- What lines are resolved against: the symbols and the name of the program, and its first address
and the one after its last. -/
structure Scope where
  evaluator : Evaluator
  start : Int
  finish : Int

/-- What becomes of a word on the second pass. -/
inductive Resolution where
  | settled (word : Word) (flag : Flag)
  | adjusted (word : Word) (adjustments : List Adjustment)
  | faulty (key : Key)

namespace Resolution

def remarks (assembler : Assembler) : Resolution → List Diagnostic
  | settled _ _ => []
  | adjusted _ adjustments =>
    if mostAdjustments < adjustments.length then [assembler.catalog.lookup .truncated] else []
  | faulty key => [assembler.catalog.lookup key]

def line (assembler : Assembler) (line : Line) (resolution : Resolution) : Line :=
  let remarked := { line with diagnostics := line.diagnostics ++ resolution.remarks assembler }
  match resolution with
  | settled word flag => { remarked with word := word, flag := flag }
  | adjusted word _ => { remarked with word := word, flag := .modify }
  | faulty _ => remarked.invalidate

def modification? (program : Bytes) (location : Int) : Resolution → Option Modification
  | adjusted word adjustments => some ⟨location, word, adjustments.take mostAdjustments, program⟩
  | _ => none

end Resolution

namespace Scope

variable (scope : Scope)

/-- An address of the program, or the one after its last. -/
def contains (address : Int) : Bool := scope.start ≤ address && address ≤ scope.finish

def resolveEquated (word : Word) (relocations : Int) : Resolution :=
  if relocations = 0 then .settled word .absolute
  else if relocations = 1 then .settled word .relocatable
  else .adjusted word (List.replicate relocations.toNat (scope.evaluator.ownAdjustment true))

def resolveSymbol (word : Word) (label : Bytes) : Resolution :=
  match scope.evaluator.symbols.get? label with
  | none => .faulty .undefinedOperand
  | some symbol =>
    match symbol.usage with
    | .external => .adjusted word [⟨true, symbol.label⟩]
    | .equated => .faulty .equateForward
    | _ =>
      match symbol.location with
      | some location => .settled (word.withAddress location) .relocatable
      | none => .faulty .undefinedOperand

def resolveExpression (word : Word) (location : Int) (expression : Bytes) : Resolution :=
  match scope.evaluator.operand expression location with
  | .error key => .faulty key
  | .ok (value, adjustments) =>
    if scope.contains value then .adjusted (word.withAddress value) adjustments
    else .faulty .outsideModule

def resolveInstruction (word : Word) (location : Int) (instruction : Instruction) : Resolution :=
  if instruction.equated.isSome then scope.resolveEquated word instruction.relocations
  else
    match instruction.operand.kind with
    | .symbol => scope.resolveSymbol word instruction.operand.text
    | .expression => scope.resolveExpression word location instruction.operand.text
    | _ => .settled word .absolute

/-- A constant that moves with the program alone, to an address that is not in the program. -/
def isOutside (found : Evaluator.Constant) : Bool :=
  !found.literal && !found.absolute &&
    found.adjustments.all (·.label == scope.evaluator.program) && !scope.contains found.value

def resolveConstant (directive : Directive) (location : Int) (expression : Bytes) : Resolution :=
  match scope.evaluator.constant expression location directive.operatorLimit with
  | .error key => .faulty key
  | .ok found =>
    if scope.isOutside found then .faulty .outsideModule
    else
      let word := Word.ofInt (Word.convert found.value Word.bits)
      if found.adjustments.isEmpty then .settled word .absolute
      else .adjusted word found.adjustments

def resolveDirective (word : Word) (location : Int) (directive : Directive) (operand : Operand) :
    Resolution :=
  if directive = .adc ∨ directive = .adce then
    if operand.kind.isNumeric then .settled (Word.ofInt operand.value) .absolute
    else
      match operand.kind with
      | .symbol | .expression => scope.resolveConstant directive location operand.text
      | _ => .settled word .absolute
  else .settled word .absolute

/-- What becomes of the word of a line. -/
def resolution (line : Line) : Resolution :=
  match line.statement with
  | some (.instruction instruction) =>
    scope.resolveInstruction line.word line.location instruction
  | some (.directive directive operand) =>
    scope.resolveDirective line.word line.location directive operand
  | _ => .settled line.word .absolute

end Scope

namespace Pass

/-- What the line of the pass is resolved against. -/
def scope (p : Pass) : Scope := ⟨p.evaluator, p.context.start, p.context.location⟩

theorem inModule_eq_contains (p : Pass) (address : Int) :
    p.context.inModule address = p.scope.contains address := by
  have finish : p.context.start + (p.context.location - p.context.start) = p.context.location := by
    omega
  rw [Context.inModule, Context.length, finish]
  rfl

/-- The passes differ at most in their logs. -/
structure Agree (p q : Pass) : Prop where
  context : p.context = q.context
  symbols : p.symbols = q.symbols
  line : p.line = q.line
  fatal : p.fatal = q.fatal

theorem Agree.refl (p : Pass) : Agree p p := ⟨rfl, rfl, rfl, rfl⟩

variable {p q : Pass} (assembler : Assembler)

theorem Agree.fail (agree : Agree p q) (key : Key) :
    Agree (p.fail assembler key) (q.fail assembler key) := by
  refine ⟨?_, ?_, ?_, ?_⟩ <;>
    simp only [Pass.fail, invalidate, mapLine, report_context, report_symbols, report_line,
      report_fatal, agree.context, agree.symbols, agree.line, agree.fatal]

theorem Agree.setWord (agree : Agree p q) (word : Word) :
    Agree (p.setWord word) (q.setWord word) := by
  refine ⟨agree.context, agree.symbols, ?_, agree.fatal⟩
  simp only [Pass.setWord, mapLine, agree.line]

variable (p)

theorem note_agree (entry : Bytes) : Agree (p.note assembler entry) p :=
  ⟨note_context _ _ _, note_symbols _ _ _, note_line _ _ _, note_fatal _ _ _⟩

/-- The pass after its line was resolved, and the adjustments of the line. -/
inductive Resolves (result : Pass × Option (List Adjustment)) : Resolution → Prop
  | settled {word : Word} {flag : Flag} (agree : Agree result.1 ((p.setWord word).setFlag flag))
      (whole : result.2 = none) : Resolves result (.settled word flag)
  | adjusted {word : Word} {adjustments : List Adjustment}
      (agree : Agree result.1 (p.setWord word)) (parts : result.2 = some adjustments) :
      Resolves result (.adjusted word adjustments)
  | faulty {key : Key} (agree : Agree result.1 (p.fail assembler key))
      (whole : result.2 = none) : Resolves result (.faulty key)

theorem resolveSymbol_resolves (label : Bytes) :
    Resolves p assembler (p.resolveSymbol assembler label)
      (p.scope.resolveSymbol p.line.word label) := by
  unfold resolveSymbol Scope.resolveSymbol
  have table : p.scope.evaluator.symbols = p.symbols := rfl
  rw [table]
  cases p.symbols.get? label with
  | none => exact .faulty (.refl _) rfl
  | some symbol =>
    obtain ⟨name, location, usage, value, relocations⟩ := symbol
    cases usage <;> cases location <;>
      first
        | exact .faulty (.refl _) rfl
        | exact .settled (.refl _) rfl
        | exact .adjusted (.refl _) rfl

theorem resolveExpression_resolves (expression : Bytes) :
    Resolves p assembler (p.resolveExpression assembler expression)
      (p.scope.resolveExpression p.line.word p.line.location expression) := by
  unfold resolveExpression Scope.resolveExpression
  have evaluator : p.scope.evaluator = p.evaluator := rfl
  rw [evaluator]
  dsimp only
  have agree := note_agree p assembler (Evaluator.operandTrace expression p.line.location
    ((p.evaluator.operand expression p.line.location).map (·.1)))
  generalize p.note assembler _ = noted at agree
  cases p.evaluator.operand expression p.line.location with
  | error key => exact .faulty (agree.fail assembler key) rfl
  | ok found =>
    dsimp only
    rw [agree.context, inModule_eq_contains, agree.line]
    split
    · exact .adjusted (agree.setWord _) rfl
    · exact .faulty (agree.fail assembler _) rfl

variable (absolute : p.line.flag = .absolute)
include absolute

/-- A word that stays as it is. -/
theorem resolves_unchanged : Resolves p assembler (p, none) (.settled p.line.word .absolute) := by
  refine .settled ⟨rfl, rfl, ?_, rfl⟩ rfl
  simp [← absolute]

theorem resolveEquated_resolves (relocations : Int) :
    Resolves p assembler (p.resolveEquated relocations)
      (p.scope.resolveEquated p.line.word relocations) := by
  unfold resolveEquated Scope.resolveEquated
  split
  · exact resolves_unchanged p assembler absolute
  · split
    · exact .settled (.refl _) rfl
    · exact .adjusted (.refl _) rfl

theorem resolveInstruction_resolves (instruction : Instruction) :
    Resolves p assembler (p.resolveInstruction assembler instruction)
      (p.scope.resolveInstruction p.line.word p.line.location instruction) := by
  unfold resolveInstruction Scope.resolveInstruction
  split
  · exact resolveEquated_resolves p assembler absolute _
  · cases instruction.operand.kind with
    | symbol => exact resolveSymbol_resolves p assembler _
    | expression => exact resolveExpression_resolves p assembler _
    | _ => exact resolves_unchanged p assembler absolute

theorem resolveConstant_resolves (directive : Directive) (expression : Bytes) :
    Resolves p assembler (p.resolveConstant assembler directive expression)
      (p.scope.resolveConstant directive p.line.location expression) := by
  unfold resolveConstant Scope.resolveConstant
  have evaluator : p.scope.evaluator = p.evaluator := rfl
  rw [evaluator]
  dsimp only
  have agree := note_agree p assembler (Evaluator.constantTrace expression p.line.location
    (p.evaluator.constant expression p.line.location directive.operatorLimit))
  generalize p.note assembler _ = noted at agree
  cases p.evaluator.constant expression p.line.location directive.operatorLimit with
  | error key => exact .faulty (agree.fail assembler key) rfl
  | ok found =>
    have outside : noted.isOutside found = p.scope.isOutside found := by
      simp only [Pass.isOutside, isOwn, Scope.isOutside, agree.context, inModule_eq_contains]
      rfl
    dsimp only
    rw [outside]
    split
    · exact .faulty (agree.fail assembler _) rfl
    · split
      · refine .settled ⟨agree.context, agree.symbols, ?_, agree.fatal⟩ rfl
        simp [agree.line, absolute]
      · exact .adjusted (agree.setWord _) rfl

theorem resolveDirective_resolves (directive : Directive) (operand : Operand) :
    Resolves p assembler (p.resolveDirective assembler directive operand)
      (p.scope.resolveDirective p.line.word p.line.location directive operand) := by
  unfold resolveDirective Scope.resolveDirective
  split
  · split
    · exact .settled ⟨rfl, rfl, by simp [absolute], rfl⟩ rfl
    · cases operand.kind with
      | symbol => exact resolveConstant_resolves p assembler absolute _ _
      | expression => exact resolveConstant_resolves p assembler absolute _ _
      | _ => exact resolves_unchanged p assembler absolute
  · exact resolves_unchanged p assembler absolute

theorem resolveStatement_resolves :
    Resolves p assembler (p.resolveStatement assembler) (p.scope.resolution p.line) := by
  unfold resolveStatement Scope.resolution
  cases p.line.statement with
  | none => exact resolves_unchanged p assembler absolute
  | some statement =>
    cases statement with
    | instruction instruction => exact resolveInstruction_resolves p assembler absolute _
    | directive directive operand => exact resolveDirective_resolves p assembler absolute _ _
    | invalidated => exact resolves_unchanged p assembler absolute

omit absolute

/-- Resolving a line is applying its resolution. -/
theorem resolve_eq :
    (p.resolve assembler).1.line = (p.scope.resolution p.line).line assembler p.line ∧
      (p.resolve assembler).2 =
        (p.scope.resolution p.line).modification? p.context.program p.line.location ∧
      (p.resolve assembler).1.context =
        p.context.count ((p.scope.resolution p.line).remarks assembler) ∧
      (p.resolve assembler).1.symbols = p.symbols := by
  have resolves := resolveStatement_resolves (p.setFlag .absolute) assembler rfl
  have same : (p.setFlag .absolute).scope.resolution (p.setFlag .absolute).line =
      p.scope.resolution p.line := rfl
  rw [same] at resolves
  unfold resolve
  generalize (p.setFlag .absolute).resolveStatement assembler = result at resolves
  obtain ⟨q, adjustments?⟩ := result
  generalize p.scope.resolution p.line = resolution at resolves
  cases resolves with
  | settled agree whole =>
    dsimp only at agree whole
    rw [whole]
    refine ⟨?_, rfl, ?_, agree.symbols⟩
    · simp [agree.line, Resolution.line, Resolution.remarks]
    · simp [agree.context, Resolution.remarks]
  | adjusted agree parts =>
    dsimp only at agree parts
    rw [parts]
    dsimp only [modify]
    split
    · rename_i many
      refine ⟨?_, ?_, ?_, ?_⟩
      · simp [agree.line, Resolution.line, Resolution.remarks, many]
      · simp [agree.line, agree.context, Resolution.modification?, Context.count]
      · simp [agree.context, Resolution.remarks, many]
      · simp [agree.symbols]
    · rename_i few
      refine ⟨?_, ?_, ?_, agree.symbols⟩
      · simp [agree.line, Resolution.line, Resolution.remarks, few]
      · simp [agree.line, agree.context, Resolution.modification?]
      · simp [agree.context, Resolution.remarks, few]
  | faulty agree whole =>
    dsimp only at agree whole
    rw [whole]
    refine ⟨?_, rfl, ?_, ?_⟩
    · simp [agree.line, fail, Resolution.line, Resolution.remarks, Line.invalidate]
    · simp [agree.context, fail, Resolution.remarks]
    · simp [agree.symbols, fail]

end Pass

/-! ### Faults -/

namespace Expression

theorem split_serious {expression : Bytes} {limit : Int} {key : Key}
    (failed : split expression limit = .error key) : key.severity = .serious := by
  unfold split at failed
  dsimp only at failed
  split at failed
  · cases failed
    rfl
  · split at failed
    · cases failed
      rfl
    · cases failed

namespace Evaluator

variable {ev : Evaluator} {expression term : Bytes} {location limit : Int} {key : Key}

theorem operandTerm_serious {operator : UInt8}
    (failed : ev.operandTerm operator term = .error key) : key.severity = .serious := by
  unfold operandTerm at failed
  repeat' split at failed
  all_goals
    cases failed
    try rfl

theorem operandAfterStar_serious (failed : ev.operandAfterStar location term = .error key) :
    key.severity = .serious := by
  unfold operandAfterStar at failed
  split at failed
  · cases failed
    rfl
  · split at failed
    · cases failed
      rfl
    · split at failed
      · split at failed
        · rename_i termFailed
          cases failed
          exact operandTerm_serious termFailed
        · dsimp only at failed
          split at failed
          · cases failed
          · cases failed
            rfl
      · cases failed
        rfl

theorem operand_serious (failed : ev.operand expression location = .error key) :
    key.severity = .serious := by
  unfold operand at failed
  split at failed
  · cases failed
  · split at failed
    · rename_i splitFailed
      cases failed
      exact split_serious splitFailed
    · split at failed
      · split at failed
        · exact operandAfterStar_serious failed
        · cases failed
          rfl
      · cases failed
        rfl

theorem equateTerm_serious {isFirst : Bool}
    (failed : ev.equateTerm location isFirst term = .error key) : key.severity = .serious := by
  unfold equateTerm at failed
  repeat' split at failed
  all_goals
    cases failed
    try rfl

theorem equateTerms_serious {terms : List Bytes} {values : List Int} {counted : Int}
    {fault : EquateFault} (failed : ev.equateTerms location values counted terms = .error fault) :
    fault.key.severity = .serious := by
  induction terms generalizing values counted with
  | nil => cases failed
  | cons term later ih =>
    unfold equateTerms at failed
    split at failed
    · rename_i termFailed
      cases failed
      exact equateTerm_serious termFailed
    · exact ih failed

theorem equate_serious {fault : EquateFault}
    (failed : ev.equate expression location limit = .error fault) :
    fault.key.severity = .serious := by
  unfold equate at failed
  split at failed
  · cases failed
  · split at failed
    · rename_i splitFailed
      cases failed
      exact split_serious splitFailed
    · split at failed
      · rename_i termsFailed
        cases failed
        exact equateTerms_serious termsFailed
      · dsimp only at failed
        split at failed
        · cases failed
        · cases failed
          rfl

theorem constantTerm_serious {isFirst positive : Bool}
    (failed : ev.constantTerm location isFirst positive term = .error key) :
    key.severity = .serious := by
  unfold constantTerm at failed
  repeat' split at failed
  all_goals
    cases failed
    try rfl

theorem constantTerms_serious {read : List ConstantTerm} {terms : List (Bytes × UInt8)}
    (failed : ev.constantTerms location read terms = .error key) : key.severity = .serious := by
  induction terms generalizing read with
  | nil => cases failed
  | cons term later ih =>
    simp only [constantTerms] at failed
    split at failed
    · rename_i termFailed
      cases failed
      exact constantTerm_serious termFailed
    · exact ih failed

theorem constantOf_serious {absolute : Bool} {terms : List ConstantTerm} {operators : Bytes}
    (failed : constantOf absolute terms operators = .error key) : key.severity = .serious := by
  unfold constantOf at failed
  dsimp only at failed
  generalize (if terms.any (·.external) then -Word.lastAddress else 0) = lowest at failed
  split at failed
  · cases failed
  · cases failed
    rfl

theorem unmarkedConstant_serious {absolute : Bool}
    (failed : ev.unmarkedConstant absolute expression location limit = .error key) :
    key.severity = .serious := by
  unfold unmarkedConstant at failed
  split at failed
  · exact constantOf_serious failed
  · split at failed
    · rename_i splitFailed
      cases failed
      exact split_serious splitFailed
    · split at failed
      · rename_i termsFailed
        cases failed
        exact constantTerms_serious termsFailed
      · exact constantOf_serious failed

end Evaluator

end Expression

namespace Scope

variable {scope : Scope} {line : Line} {key : Key}

theorem resolveInstruction_serious {word : Word} {location : Int} {instruction : Instruction}
    (failed : scope.resolveInstruction word location instruction = .faulty key) :
    key.severity = .serious := by
  unfold resolveInstruction at failed
  split at failed
  · unfold resolveEquated at failed
    repeat' split at failed
    all_goals cases failed
  · split at failed
    · unfold resolveSymbol at failed
      repeat' split at failed
      all_goals
        cases failed
        try rfl
    · unfold resolveExpression at failed
      split at failed
      · rename_i operandFailed
        cases failed
        exact Evaluator.operand_serious operandFailed
      · split at failed
        · cases failed
        · cases failed
          rfl
    · cases failed

theorem resolveDirective_serious {word : Word} {location : Int} {directive : Directive}
    {operand : Operand}
    (failed : scope.resolveDirective word location directive operand = .faulty key) :
    key.severity = .serious := by
  have constant : scope.resolveConstant directive location operand.text = .faulty key →
      key.severity = .serious := by
    intro failed
    unfold resolveConstant at failed
    split at failed
    · rename_i constantFailed
      cases failed
      exact Evaluator.unmarkedConstant_serious constantFailed
    · split at failed
      · cases failed
        rfl
      · dsimp only at failed
        split at failed <;> cases failed
  unfold resolveDirective at failed
  split at failed
  · split at failed
    · cases failed
    · split at failed
      · exact constant failed
      · exact constant failed
      · cases failed
  · cases failed

/-- A fault of the second pass is serious. -/
theorem resolution_serious (failed : scope.resolution line = .faulty key) :
    key.severity = .serious := by
  unfold resolution at failed
  split at failed
  · exact resolveInstruction_serious failed
  · exact resolveDirective_serious failed
  · cases failed

theorem resolution_of_invalidated (invalidated : line.statement = some .invalidated) :
    scope.resolution line = .settled line.word .absolute := by
  simp only [resolution, invalidated]

/-- A settled word stays as it is, or moves with the program. -/
theorem resolution_flag {word : Word} {flag : Flag}
    (settled : scope.resolution line = .settled word flag) :
    flag = .absolute ∨ flag = .relocatable := by
  have constant : ∀ directive location expression,
      scope.resolveConstant directive location expression = .settled word flag →
      flag = .absolute ∨ flag = .relocatable := by
    intro directive location expression settled
    unfold resolveConstant at settled
    dsimp only at settled
    repeat' split at settled
    all_goals cases settled
    simp
  unfold resolution at settled
  split at settled
  · unfold resolveInstruction resolveEquated resolveSymbol resolveExpression at settled
    repeat' split at settled
    all_goals
      cases settled
      try simp
  · unfold resolveDirective at settled
    repeat' split at settled
    · cases settled
      simp
    · exact constant _ _ _ settled
    · exact constant _ _ _ settled
    · cases settled
      simp
    · cases settled
      simp
  · cases settled
    simp

end Scope

end WordAssembler

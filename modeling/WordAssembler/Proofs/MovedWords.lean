import WordAssembler.Proofs.MovedValues

/-!
Words of a program that was moved. A word that is resolved at both places is absolute and the same
at both, or has its address field moved by the distance, or is left to the linker with the same
adjustments.
-/

set_option autoImplicit false

namespace WordAssembler

open Expression

/-- What becomes of a word at both places. -/
inductive Resolution.Moves (program : Bytes) (distance : Int) : Resolution → Resolution → Prop
  | absolute (word : Word) : Moves program distance (.settled word .absolute)
      (.settled word .absolute)
  | relocatable (word : Word) {address : Int} (inside : isAddress address = true)
      (insideMoved : isAddress (address + distance) = true) :
      Moves program distance (.settled (word.withAddress address) .relocatable)
        (.settled (word.withAddress (address + distance)) .relocatable)
  | adjusted {word wordMoved : Word} {adjustments : List Adjustment}
      (value : wordMoved = word + Word.ofInt (distance * net program adjustments))
      (few : adjustments.length ≤ mostAdjustments) :
      Moves program distance (.adjusted word adjustments) (.adjusted wordMoved adjustments)

/-- The resolution is not given up. -/
def Resolution.Succeeds (resolution : Resolution) : Prop := ∀ key, resolution ≠ .faulty key

namespace Scope

/-- What the program loaded some distance further is resolved against. -/
def moved (distance : Int) (scope : Scope) : Scope :=
  ⟨scope.evaluator.moved distance, scope.start + distance, scope.finish + distance⟩

/-- The program can be loaded some distance further: its symbols depend on the load address by
their locations alone, and these are in memory at both places. -/
structure Movable (distance : Int) (scope : Scope) : Prop where
  evaluator : scope.evaluator.Movable
  inside : ∀ symbol ∈ scope.evaluator.symbols.symbols, symbol.usage ≠ .equated →
    ∀ address, symbol.location = some address →
      isAddress address = true ∧ isAddress (address + distance) = true

variable {distance : Int} {scope : Scope} (movable : scope.Movable distance) {location : Int}
include movable

theorem resolveSymbol_moves {label : Bytes} (word : Word)
    (here : (scope.resolveSymbol word label).Succeeds) :
    (scope.resolveSymbol word label).Moves scope.evaluator.program distance
      ((scope.moved distance).resolveSymbol word label) := by
  have table : (scope.moved distance).evaluator.symbols = scope.evaluator.symbols.moved distance :=
    rfl
  unfold resolveSymbol at here ⊢
  rw [table, Symbol.Table.get?_moved]
  cases found : scope.evaluator.symbols.get? label with
  | none =>
    rw [found] at here
    exact absurd rfl (here _)
  | some symbol =>
    rw [found] at here
    have member := Symbol.Table.mem_of_get? found
    have usage : (symbol.moved distance).usage = symbol.usage := rfl
    have place : (symbol.moved distance).location = symbol.location.map (· + distance) := rfl
    dsimp only [Option.map_some] at here ⊢
    rw [usage, place]
    cases kind : symbol.usage with
    | external =>
      refine .adjusted ?_ (Nat.le_add_left 1 _)
      rw [net_foreign (movable.evaluator.foreign symbol member kind), Int.mul_zero]
      simp [Word.ofInt]
    | equated =>
      rw [kind] at here
      exact absurd rfl (here _)
    | _ =>
      rw [kind] at here
      cases located : symbol.location with
      | none =>
        rw [located] at here
        exact absurd rfl (here _)
      | some address =>
        have other : symbol.usage ≠ .equated := by simp [kind]
        obtain ⟨inside, insideMoved⟩ := movable.inside symbol member other address located
        exact .relocatable word inside insideMoved

section Located

variable (inside : isAddress location = true)
  (insideMoved : isAddress (location + distance) = true)
include inside insideMoved

theorem resolveExpression_moves {expression : Bytes} (word : Word)
    (here : (scope.resolveExpression word location expression).Succeeds)
    (there : ((scope.moved distance).resolveExpression word (location + distance)
      expression).Succeeds) :
    (scope.resolveExpression word location expression).Moves scope.evaluator.program distance
      ((scope.moved distance).resolveExpression word (location + distance) expression) := by
  have evaluator : (scope.moved distance).evaluator = scope.evaluator.moved distance := rfl
  unfold resolveExpression at here there ⊢
  rw [evaluator] at there ⊢
  cases found : scope.evaluator.operand expression location with
  | error key =>
    rw [found] at here
    exact absurd rfl (here key)
  | ok result =>
    obtain ⟨value, adjustments⟩ := result
    cases foundMoved : (scope.evaluator.moved distance).operand expression
        (location + distance) with
    | error key =>
      rw [foundMoved] at there
      exact absurd rfl (there key)
    | ok resultMoved =>
      obtain ⟨valueMoved, adjustmentsMoved⟩ := resultMoved
      rw [found] at here
      rw [foundMoved] at there
      dsimp only at here there ⊢
      obtain ⟨rfl, few, same⟩ := Evaluator.operand_moves movable.evaluator found foundMoved
      have address := isAddress_iff.1 (Evaluator.operand_isAddress inside found)
      have addressMoved := isAddress_iff.1 (Evaluator.operand_isAddress insideMoved foundMoved)
      split at here
      · split at there
        · rename_i within withinMoved
          rw [if_pos within, if_pos withinMoved]
          refine .adjusted ?_ few
          rw [Word.withAddress_eq_add address.1 address.2,
            Word.withAddress_eq_add addressMoved.1 addressMoved.2, Word.ofInt_congr same,
            Word.ofInt_add, BitVec.add_assoc]
        · exact absurd rfl (there _)
      · exact absurd rfl (here _)

theorem resolveInstruction_moves {instruction : Instruction} (word : Word)
    (plain : (Statement.instruction instruction).Plain)
    (here : (scope.resolveInstruction word location instruction).Succeeds)
    (there : ((scope.moved distance).resolveInstruction word (location + distance)
      instruction).Succeeds) :
    (scope.resolveInstruction word location instruction).Moves scope.evaluator.program distance
      ((scope.moved distance).resolveInstruction word (location + distance) instruction) := by
  unfold resolveInstruction at here there ⊢
  by_cases equated : instruction.equated.isSome = true
  · have flat : instruction.relocations = 0 := plain
    rw [if_pos equated, if_pos equated, resolveEquated, resolveEquated, if_pos flat, if_pos flat]
    exact .absolute word
  · rw [if_neg equated] at here there
    rw [if_neg equated, if_neg equated]
    cases kind : instruction.operand.kind with
    | symbol =>
      rw [kind] at here
      exact resolveSymbol_moves movable word here
    | expression =>
      rw [kind] at here there
      exact resolveExpression_moves movable inside insideMoved word here there
    | _ => exact .absolute word

omit inside insideMoved

theorem resolveConstant_moves {directive : Directive} {expression : Bytes}
    (plain : expression.head? ≠ some (byte '+'))
    (here : (scope.resolveConstant directive location expression).Succeeds)
    (there : ((scope.moved distance).resolveConstant directive (location + distance)
      expression).Succeeds) :
    (scope.resolveConstant directive location expression).Moves scope.evaluator.program distance
      ((scope.moved distance).resolveConstant directive (location + distance) expression) := by
  have evaluator : (scope.moved distance).evaluator = scope.evaluator.moved distance := rfl
  have short : directive.operatorLimit < mostAdjustments := by cases directive <;> decide
  unfold resolveConstant at here there ⊢
  rw [evaluator] at there ⊢
  cases found : scope.evaluator.constant expression location directive.operatorLimit with
  | error key =>
    rw [found] at here
    exact absurd rfl (here key)
  | ok first =>
    cases foundMoved : (scope.evaluator.moved distance).constant expression (location + distance)
        directive.operatorLimit with
    | error key =>
      rw [foundMoved] at there
      exact absurd rfl (there key)
    | ok second =>
      rw [found] at here
      rw [foundMoved] at there
      dsimp only at here there ⊢
      have moves := Evaluator.constant_moves movable.evaluator plain short found foundMoved
      split at here
      · exact absurd rfl (here _)
      · split at there
        · exact absurd rfl (there _)
        · rename_i within withinMoved
          rw [if_neg within, if_neg withinMoved, moves.adjustments,
            Word.ofInt_convert moves.small.1 moves.small.2,
            Word.ofInt_convert moves.smallMoved.1 moves.smallMoved.2, Word.ofInt_congr moves.value,
            Word.ofInt_add]
          split
          · rename_i none
            rw [List.isEmpty_iff.1 none, net_nil, Int.mul_zero]
            have same : Word.ofInt first.value + Word.ofInt 0 = Word.ofInt first.value := by
              simp [Word.ofInt]
            rw [same]
            exact .absolute _
          · exact .adjusted rfl moves.few

theorem resolveDirective_moves {directive : Directive} {operand : Operand} (word : Word)
    (plain : (Statement.directive directive operand).Plain)
    (here : (scope.resolveDirective word location directive operand).Succeeds)
    (there : ((scope.moved distance).resolveDirective word (location + distance) directive
      operand).Succeeds) :
    (scope.resolveDirective word location directive operand).Moves scope.evaluator.program distance
      ((scope.moved distance).resolveDirective word (location + distance) directive operand) := by
  unfold resolveDirective at here there ⊢
  split at here
  · rename_i constant
    rw [if_pos constant] at there
    rw [if_pos constant, if_pos constant]
    split at here
    · rename_i numeric
      rw [if_pos numeric, if_pos numeric]
      exact .absolute _
    · rename_i open_
      rw [if_neg open_] at there
      rw [if_neg open_, if_neg open_]
      cases kind : operand.kind with
      | symbol =>
        rw [kind] at here there
        exact resolveConstant_moves movable (plain.2 constant) here there
      | expression =>
        rw [kind] at here there
        exact resolveConstant_moves movable (plain.2 constant) here there
      | _ => exact .absolute word
  · rename_i other
    rw [if_neg other, if_neg other]
    exact .absolute word

end Located

/-- A word that is resolved at both places moves with its program. -/
theorem resolution_moves {line lineMoved : Line} (moves : line.Moves distance lineMoved)
    (addressed : line.addressed = true) (inside : isAddress line.location = true)
    (insideMoved : isAddress lineMoved.location = true)
    (here : (scope.resolution line).Succeeds)
    (there : ((scope.moved distance).resolution lineMoved).Succeeds) :
    (scope.resolution line).Moves scope.evaluator.program distance
      ((scope.moved distance).resolution lineMoved) := by
  have location := moves.location addressed
  have plain := moves.plain
  rw [location] at insideMoved
  unfold resolution at here there ⊢
  rw [moves.statement addressed, moves.word addressed, location] at there ⊢
  cases statement : line.statement with
  | none => exact .absolute line.word
  | some said =>
    rw [statement] at here there
    have plain := moves.plain said (Or.inl statement)
    cases said with
    | instruction instruction =>
      exact resolveInstruction_moves movable inside insideMoved line.word plain here there
    | directive directive operand =>
      exact resolveDirective_moves movable line.word plain here there
    | invalidated => exact .absolute line.word

end Scope

end WordAssembler

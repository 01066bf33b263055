import Mathlib.Tactic.Ring
import WordAssembler.Proofs.Evaluation

/-!
Address constants of a program that is loaded some distance further, where its symbols are as far
away in 64-bit arithmetic. Every term has the same adjustments at both places, and moves by the
distance as often as they add the program; so does their sum.
-/

set_option autoImplicit false

namespace WordAssembler

/-- A symbol is that of the program loaded some distance further: its address is as much larger, and
an equated value as often as it counts the load address. -/
structure Symbol.Displaced (distance : Int) (first second : Symbol) : Prop where
  label : second.label = first.label
  usage : second.usage = first.usage
  relocations : second.relocations = first.relocations
  address : first.isLocal = true → SameInteger second.address (first.address + distance)
  value : first.usage = .equated →
    SameInteger second.value (first.value + distance * first.relocations)

theorem net_replicate (label : Bytes) (positive : Bool) (count : Nat) :
    net label (List.replicate count ⟨positive, label⟩) =
      if positive then (count : Int) else -count := by
  cases positive <;> simp [net, List.countP_replicate]

namespace Expression.Evaluator

/-- An evaluator is that of the program loaded some distance further. -/
structure Displaced (distance : Int) (first second : Evaluator) : Prop where
  program : second.program = first.program
  symbols : ∀ label, Option.Rel (Symbol.Displaced distance) (first.symbols.get? label)
    (second.symbols.get? label)

namespace Displaced

variable {distance : Int} {first second : Evaluator} (displaced : first.Displaced distance second)
  {label : Bytes}
include displaced

theorem absent (absent : first.symbols.get? label = none) : second.symbols.get? label = none := by
  have related := displaced.symbols label
  rw [absent] at related
  generalize second.symbols.get? label = found at related
  cases related
  rfl

theorem known {symbol : Symbol} (known : first.symbols.get? label = some symbol) :
    ∃ other, second.symbols.get? label = some other ∧ symbol.Displaced distance other := by
  have related := displaced.symbols label
  rw [known] at related
  generalize second.symbols.get? label = found at related
  cases related with
  | some same => exact ⟨_, rfl, same⟩

end Displaced

/-- No symbol counts the load address less than never, and no external one has the name of the
program, so that the adjustments to that name are those to the program. -/
structure Adjustable (ev : Evaluator) : Prop where
  counts : ∀ symbol ∈ ev.symbols.symbols, 0 ≤ symbol.relocations
  foreign : ∀ symbol ∈ ev.symbols.symbols, symbol.usage = .external → symbol.label ≠ ev.program

/-- A term of an address constant at both places, added or subtracted. -/
structure ConstantTerm.Displaced (program : Bytes) (distance : Int) (positive : Bool)
    (first second : ConstantTerm) : Prop where
  value : SameInteger (if positive then second.value else -second.value)
    ((if positive then first.value else -first.value) + distance * net program first.adjustments)
  adjustments : second.adjustments = first.adjustments
  literal : second.literal = first.literal
  bare : first.literal = true → first.adjustments = []

/-- A term that is adjusted for some times moves by the distance as often. -/
theorem ConstantTerm.Displaced.of_count {program : Bytes} {distance : Int} {positive : Bool}
    {first second : ConstantTerm} (count : Int)
    (value : SameInteger second.value (first.value + distance * count))
    (adjusted : net program first.adjustments = if positive then count else -count)
    (adjustments : second.adjustments = first.adjustments)
    (literal : second.literal = first.literal)
    (bare : first.literal = true → first.adjustments = []) :
    first.Displaced program distance positive second := by
  refine ⟨?_, adjustments, literal, bare⟩
  rw [adjusted]
  cases positive with
  | true => simpa using value
  | false =>
    have opposite : -(first.value + distance * count) = -first.value + distance * -count := by ring
    show SameInteger (-second.value) (-first.value + distance * -count)
    rw [← opposite]
    exact value.neg

variable {ev other : Evaluator} {location place distance limit : Int} {expression term : Bytes}

section Displaced

variable (displaced : ev.Displaced distance other) (adjustable : ev.Adjustable)
  (moved : SameInteger place (location + distance))
include displaced adjustable moved

theorem constantTerm_displaced {isFirst positive : Bool} {first second : ConstantTerm}
    (leading : isFirst = true → positive = true)
    (here : ev.constantTerm location isFirst positive term = .ok first)
    (there : other.constantTerm place isFirst positive term = .ok second) :
    first.Displaced ev.program distance positive second := by
  have own : ∀ sign, other.ownAdjustment sign = ev.ownAdjustment sign := by
    intro sign
    rw [ownAdjustment, displaced.program, ownAdjustment]
  cases constantTerm_ok here with
  | here isStar first =>
    rw [constantTerm, if_pos isStar, if_pos first, own] at there
    cases there
    rw [leading first]
    exact .of_count 1 (by simpa using moved) (net_own _ true) rfl rfl (absurd · Bool.false_ne_true)
  | number plain absent read =>
    rw [constantTerm, if_neg plain, displaced.absent absent] at there
    dsimp only at there
    rw [read] at there
    cases there
    exact .of_count 0 (by simp) (by simp) rfl rfl fun _ => rfl
  | inside plain known isLocal =>
    obtain ⟨symbol, knownThere, same⟩ := displaced.known known
    rw [constantTerm, if_neg plain, knownThere] at there
    dsimp only at there
    split at there
    · cases there
      exact .of_count 1 (by simpa using same.address isLocal) (net_own _ positive) (by rw [own]) rfl
        (absurd · Bool.false_ne_true)
    · -- An entry may be located at one place only.
      rw [same.usage] at there
      rcases Symbol.usage_of_isLocal isLocal with usage | usage <;>
        · rw [usage] at there
          cases there
  | external plain known usage =>
    obtain ⟨symbol, knownThere, same⟩ := displaced.known known
    have notLocal : ¬ symbol.isLocal = true := by simp [Symbol.isLocal, same.usage, usage]
    rw [constantTerm, if_neg plain, knownThere] at there
    dsimp only at there
    rw [if_neg notLocal, same.usage, usage, same.label] at there
    cases there
    have foreign := net_foreign
      (adjustable.foreign _ (Symbol.Table.mem_of_get? known) usage) positive
    exact .of_count 0 (by simp) (by simpa using foreign) rfl rfl (absurd · Bool.false_ne_true)
  | @equated symbolHere plain known usage =>
    obtain ⟨symbol, knownThere, same⟩ := displaced.known known
    have notLocal : ¬ symbol.isLocal = true := by simp [Symbol.isLocal, same.usage, usage]
    have counted := adjustable.counts symbolHere (Symbol.Table.mem_of_get? known)
    rw [constantTerm, if_neg plain, knownThere] at there
    dsimp only at there
    rw [if_neg notLocal, same.usage, usage, same.relocations] at there
    cases there
    refine .of_count symbolHere.relocations (same.value usage) ?_ (by rw [own]) rfl ?_
    · rw [ownAdjustment, net_replicate, Int.toNat_of_nonneg counted]
    · intro literal
      have none : symbolHere.relocations.toNat = 0 := by simpa using literal
      rw [none]
      rfl

end Displaced

/-- The terms of an address constant at both places, with the operators before them. -/
structure TermsDisplaced (program : Bytes) (distance : Int) (operators : Bytes)
    (firsts seconds : List ConstantTerm) : Prop where
  lengths : firsts.length = operators.length ∧ seconds.length = operators.length
  sum : SameInteger (signedSum ((seconds.map (·.value)).zip operators))
    (signedSum ((firsts.map (·.value)).zip operators) +
      distance * net program (firsts.flatMap (·.adjustments)))
  adjustments : seconds.flatMap (·.adjustments) = firsts.flatMap (·.adjustments)
  literal : seconds.all (·.literal) = firsts.all (·.literal)
  bare : firsts.all (·.literal) = true → firsts.flatMap (·.adjustments) = []

theorem TermsDisplaced.nil (program : Bytes) (distance : Int) :
    TermsDisplaced program distance [] [] [] :=
  ⟨⟨rfl, rfl⟩, by simp, rfl, rfl, fun _ => rfl⟩

theorem TermsDisplaced.cons {program : Bytes} {distance : Int} {operator : UInt8}
    {operators : Bytes} {first second : ConstantTerm} {firsts seconds : List ConstantTerm}
    (term : first.Displaced program distance (operator == byte '+') second)
    (later : TermsDisplaced program distance operators firsts seconds) :
    TermsDisplaced program distance (operator :: operators) (first :: firsts)
      (second :: seconds) := by
  refine ⟨?_, ?_, ?_, ?_, ?_⟩
  · simp [later.lengths]
  · simp only [List.map_cons, List.zip_cons_cons, signedSum_cons, List.flatMap_cons, net_append]
    refine (term.value.add later.sum).trans ?_
    rw [mul_add, add_add_add_comm]
  · rw [List.flatMap_cons, List.flatMap_cons, term.adjustments, later.adjustments]
  · rw [List.all_cons, List.all_cons, term.literal, later.literal]
  · intro literal
    rw [List.all_cons, Bool.and_eq_true] at literal
    rw [List.flatMap_cons, term.bare literal.1, later.bare literal.2, List.nil_append]

section Displaced

variable (displaced : ev.Displaced distance other) (adjustable : ev.Adjustable)
  (moved : SameInteger place (location + distance))
include displaced adjustable moved

/-- Terms with the operators before them, the first of all added. -/
theorem constantTerms_displaced {terms : List (Bytes × UInt8)}
    {read readThere found foundThere : List ConstantTerm}
    (alike : readThere.isEmpty = read.isEmpty)
    (leading : read.isEmpty = true → ∀ term ∈ terms.head?, term.2 = byte '+')
    (here : ev.constantTerms location read terms = .ok found)
    (there : other.constantTerms place readThere terms = .ok foundThere) :
    ∃ firsts seconds, found = read.reverse ++ firsts ∧ foundThere = readThere.reverse ++ seconds ∧
      TermsDisplaced ev.program distance (terms.map (·.2)) firsts seconds := by
  induction terms generalizing read readThere with
  | nil =>
    cases here
    cases there
    exact ⟨[], [], (List.append_nil _).symm, (List.append_nil _).symm, .nil _ _⟩
  | cons pair later ih =>
    obtain ⟨term, operator⟩ := pair
    have added : read.isEmpty = true → (operator == byte '+') = true := by
      intro empty
      have plus : operator = byte '+' := leading empty (term, operator) rfl
      simp [plus]
    simp only [constantTerms, alike] at here there
    cases value : ev.constantTerm location read.isEmpty (operator == byte '+') term with
    | error key =>
      rw [value] at here
      cases here
    | ok first =>
      cases valueThere : other.constantTerm place read.isEmpty (operator == byte '+') term with
      | error key =>
        rw [valueThere] at there
        cases there
      | ok second =>
        rw [value] at here
        rw [valueThere] at there
        have head := constantTerm_displaced displaced adjustable moved added value valueThere
        obtain ⟨firsts, seconds, rfl, rfl, rest⟩ :=
          @ih (first :: read) (second :: readThere) rfl (by simp) here there
        exact ⟨first :: firsts, second :: seconds, by simp, by simp, .cons head rest⟩

end Displaced

/-- An address constant at both places. -/
structure Constant.Displaced (program : Bytes) (distance : Int) (first second : Constant) :
    Prop where
  adjustments : second.adjustments = first.adjustments
  literal : second.literal = first.literal
  value : SameInteger second.value (first.value + distance * net program first.adjustments)
  bare : first.literal = true → first.adjustments = []

/-- The sum of terms that are adjusted for moves as they do. -/
theorem constantOf_displaced {program operators : Bytes} {firsts seconds : List ConstantTerm}
    {first second : Constant}
    (terms : TermsDisplaced program distance (byte '+' :: operators) firsts seconds)
    (isOperator : ∀ operator ∈ operators, Expression.isOperator operator = true)
    (here : constantOf false firsts operators = .ok first)
    (there : constantOf false seconds operators = .ok second) :
    first.Displaced program distance second := by
  obtain ⟨value, literal, adjustments, _⟩ := constantOf_ok here
  obtain ⟨valueThere, literalThere, adjustmentsThere, _⟩ := constantOf_ok there
  obtain ⟨length, lengthThere⟩ := terms.lengths
  have whole : first.adjustments = firsts.flatMap (·.adjustments) := by
    rw [adjustments, Bool.or_false]
    split
    · rename_i literal
      exact (terms.bare literal).symm
    · rfl
  have sum := reduce_sameInteger isOperator
    (show (firsts.map (·.value)).length = operators.length + 1 by simpa using length)
  have sumThere := reduce_sameInteger isOperator
    (show (seconds.map (·.value)).length = operators.length + 1 by simpa using lengthThere)
  refine ⟨?_, by rw [literalThere, literal, terms.literal], ?_, ?_⟩
  · rw [adjustmentsThere, adjustments, terms.literal, terms.adjustments]
  · rw [value, valueThere, whole]
    exact sumThere.trans (terms.sum.trans (sum.symm.add_right _))
  · intro quiet
    rw [whole]
    exact terms.bare (literal.symm.trans quiet)

/-- An address constant without a mark has the same adjustments at both places, and moves by the
distance as often as they add the program. -/
theorem constant_displaced (displaced : ev.Displaced distance other) (adjustable : ev.Adjustable)
    (moved : SameInteger place (location + distance)) {first second : Constant}
    (plain : expression.head? ≠ some (byte '+'))
    (here : ev.constant expression location limit = .ok first)
    (there : other.constant expression place limit = .ok second) :
    first.Displaced ev.program distance second := by
  rw [constant, unmark_of_plain plain] at here there
  obtain ⟨joined, firsts, evaluated, made⟩ := unmarkedConstant_ok here
  obtain ⟨_, seconds, evaluatedThere, madeThere⟩ := unmarkedConstant_ok there
  obtain ⟨_, _, rfl, rfl, terms⟩ := constantTerms_displaced displaced adjustable moved rfl
    (fun _ => joined.leading) evaluated evaluatedThere
  rw [joined.signs] at terms
  exact constantOf_displaced terms isOperator_of_mem_filter made madeThere

end Expression.Evaluator

end WordAssembler

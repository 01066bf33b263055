import WordAssembler.Proofs.Arithmetic
import WordAssembler.Proofs.Table

/-!
What a successful evaluation says of its expression: the terms all have values, each of one of a few
kinds, there is one operator between any two of them, and the result is what the values reduce to.
The location counter by itself is the expression of a single term.
-/

set_option autoImplicit false

namespace WordAssembler.Expression

theorem isAddress_iff {value : Int} :
    isAddress value = true ↔ 0 ≤ value ∧ value ≤ Word.lastAddress := by
  simp [isAddress]

/-! ### Parts of an expression -/

/-- The terms of an expression with the operators before them, the first of them added. -/
def signedTerms (expression : Bytes) : List (Bytes × UInt8) :=
  ((pieces isOperator expression).filter (!·.isEmpty)).zip
    (byte '+' :: expression.filter isOperator)

theorem eq_of_isOperator {operator : UInt8} (known : isOperator operator = true) :
    operator = byte '+' ∨ operator = byte '-' := by
  simpa [isOperator] using known

theorem isOperator_of_mem_filter {expression : Bytes} :
    ∀ operator ∈ expression.filter isOperator, isOperator operator = true :=
  fun _ member => (List.mem_filter.1 member).2

theorem signedTerms_star : signedTerms star = [(star, byte '+')] := by decide

theorem split_ok {expression : Bytes} {limit : Int} {terms : Terms}
    (known : split expression limit = .ok terms) :
    terms.operands.length = terms.operators.length + 1 ∧ (terms.operators.length : Int) ≤ limit ∧
      ∀ operator ∈ terms.operators, isOperator operator = true := by
  unfold split at known
  dsimp only at known
  split at known
  · cases known
  · split at known
    · cases known
    · cases known
      dsimp only
      exact ⟨by omega, by omega, isOperator_of_mem_filter⟩

theorem signedTerms_of_split {expression : Bytes} {limit : Int} {terms : Terms}
    (parts : split expression limit = .ok terms) :
    terms.operators = expression.filter isOperator ∧
      signedTerms expression = terms.operands.zip (byte '+' :: terms.operators) := by
  unfold split at parts
  dsimp only at parts
  split at parts
  · cases parts
  · split at parts
    · cases parts
    · cases parts
      exact ⟨rfl, rfl⟩

/-- The expression has one operator between any two terms, as many as are allowed. -/
structure Joined (expression : Bytes) (limit : Int) : Prop where
  signs : (signedTerms expression).map (·.2) = byte '+' :: expression.filter isOperator
  few : expression = star ∨ ((expression.filter isOperator).length : Int) ≤ limit

theorem joined_star (limit : Int) : Joined star limit := ⟨by decide, Or.inl rfl⟩

theorem joined_of_split {expression : Bytes} {limit : Int} {terms : Terms}
    (parts : split expression limit = .ok terms) : Joined expression limit := by
  obtain ⟨lengths, few, _⟩ := split_ok parts
  obtain ⟨operators, signed⟩ := signedTerms_of_split parts
  refine ⟨?_, Or.inr (operators ▸ few)⟩
  rw [signed, ← operators, List.map_snd_zip]
  rw [List.length_cons, lengths]

namespace Joined

variable {expression : Bytes} {limit : Int} (joined : Joined expression limit)
include joined

theorem length : (signedTerms expression).length = (expression.filter isOperator).length + 1 := by
  rw [← List.length_map (f := (·.2)), joined.signs, List.length_cons]

theorem zip : ((signedTerms expression).map (·.1)).zip (byte '+' :: expression.filter isOperator) =
    signedTerms expression := by
  rw [← joined.signs, List.zip_map']
  exact List.map_id _

/-- The first term is added. -/
theorem leading : ∀ term ∈ (signedTerms expression).head?, term.2 = byte '+' := by
  intro term member
  have sign : ((signedTerms expression).map (·.2)).head? = some term.2 := by
    rw [List.head?_map, Option.mem_def.1 member]
    rfl
  rw [joined.signs] at sign
  exact (Option.some.inj sign).symm

theorem isOperator : ∀ term ∈ signedTerms expression, Expression.isOperator term.2 = true := by
  intro term member
  have sign : term.2 ∈ (signedTerms expression).map (·.2) := List.mem_map_of_mem member
  rw [joined.signs] at sign
  rcases List.mem_cons.1 sign with plus | later
  · rw [plus]
    decide
  · exact isOperator_of_mem_filter term.2 later

end Joined

namespace Evaluator

variable {ev : Evaluator} {expression term : Bytes} {location limit : Int}

/-! ### Terms -/

/-- The terms that may stand after the location counter in an operand. -/
inductive TermOfOperand (ev : Evaluator) (operator : UInt8) (term : Bytes) :
    Int × List Adjustment → Prop
  | number {value : Int} (kind : Token.kindOf term = .number) (read : number? term = some value)
      (small : value ≤ Word.lastAddress) : TermOfOperand ev operator term (value, [])
  | equated {symbol : Symbol} (kind : Token.kindOf term = .label)
      (length : isLabelLength term = true) (known : ev.symbols.get? term = some symbol)
      (usage : symbol.usage = .equated) : TermOfOperand ev operator term (symbol.value, [])
  | inside {symbol : Symbol} (kind : Token.kindOf term = .label)
      (length : isLabelLength term = true) (known : ev.symbols.get? term = some symbol)
      (isLocal : symbol.isLocal = true) :
      TermOfOperand ev operator term (symbol.address, [ev.ownAdjustment (operator == byte '+')])

theorem operandTerm_iff {operator : UInt8} {found : Int × List Adjustment} :
    ev.operandTerm operator term = .ok found ↔ ev.TermOfOperand operator term found := by
  constructor
  · intro value
    unfold operandTerm at value
    split at value
    · rename_i kind
      split at value
      · rename_i read
        split at value
        · rename_i small
          cases value
          exact .number kind read small
        · cases value
      · cases value
    · rename_i kind
      split at value
      · rename_i length
        split at value
        · cases value
        · rename_i symbol known
          split at value
          · rename_i usage
            cases value
            exact .equated kind length known usage
          · split at value
            · rename_i isLocal
              cases value
              exact .inside kind length known isLocal
            · cases value
      · cases value
    · split at value <;> cases value
  · intro value
    cases value with
    | number kind read small => simp [operandTerm, kind, read, small]
    | equated kind length known usage => simp [operandTerm, kind, length, known, usage]
    | inside kind length known isLocal =>
      simp [operandTerm, kind, length, known, isLocal, Symbol.ne_equated_of_isLocal isLocal]

/-- The terms of an equate, and what they are worth. -/
inductive TermOfEquate (ev : Evaluator) (location : Int) (isFirst : Bool) (term : Bytes) :
    Equate → Prop
  | here (isStar : term = star) (leading : isFirst = true) :
      TermOfEquate ev location isFirst term ⟨location, 1⟩
  | equated {symbol : Symbol} (other : term ≠ star) (known : ev.symbols.get? term = some symbol)
      (usage : symbol.usage = .equated) :
      TermOfEquate ev location isFirst term ⟨symbol.value, symbol.relocations⟩
  | inside {symbol : Symbol} (other : term ≠ star) (known : ev.symbols.get? term = some symbol)
      (isLocal : symbol.isLocal = true) :
      TermOfEquate ev location isFirst term ⟨symbol.address, 1⟩
  | number {value : Int} (other : term ≠ star) (absent : ev.symbols.get? term = none)
      (read : number? term = some value) :
      TermOfEquate ev location isFirst term ⟨value, 0⟩

theorem equateTerm_ok {isFirst : Bool} {found : Equate}
    (value : ev.equateTerm location isFirst term = .ok found) :
    ev.TermOfEquate location isFirst term found := by
  unfold equateTerm at value
  split at value
  · rename_i isStar
    split at value
    · rename_i leading
      cases value
      exact .here isStar leading
    · cases value
  · rename_i other
    split at value
    · rename_i symbol known
      split at value
      · rename_i usage
        cases value
        exact .equated other known usage
      · split at value
        · rename_i isLocal
          cases value
          exact .inside other known isLocal
        · cases value
    · rename_i absent
      split at value
      · rename_i read
        cases value
        exact .number other absent read
      · cases value

/-- The terms of an address constant, and what they add or subtract. -/
inductive TermOfConstant (ev : Evaluator) (location : Int) (isFirst positive : Bool)
    (term : Bytes) : ConstantTerm → Prop
  | here (isStar : term = star) (leading : isFirst = true) :
      TermOfConstant ev location isFirst positive term
        ⟨location, [ev.ownAdjustment true], false, false⟩
  | inside {symbol : Symbol} (other : term ≠ star) (known : ev.symbols.get? term = some symbol)
      (isLocal : symbol.isLocal = true) :
      TermOfConstant ev location isFirst positive term
        ⟨symbol.address, [ev.ownAdjustment positive], false, false⟩
  | external {symbol : Symbol} (other : term ≠ star) (known : ev.symbols.get? term = some symbol)
      (usage : symbol.usage = .external) :
      TermOfConstant ev location isFirst positive term ⟨0, [⟨positive, symbol.label⟩], true, false⟩
  | equated {symbol : Symbol} (other : term ≠ star) (known : ev.symbols.get? term = some symbol)
      (usage : symbol.usage = .equated) :
      TermOfConstant ev location isFirst positive term
        ⟨symbol.value, List.replicate symbol.relocations.toNat (ev.ownAdjustment positive), false,
          !decide (0 < symbol.relocations)⟩
  | number {value : Int} (other : term ≠ star) (absent : ev.symbols.get? term = none)
      (read : number? term = some value) :
      TermOfConstant ev location isFirst positive term ⟨value, [], false, true⟩

theorem constantTerm_ok {isFirst positive : Bool} {found : ConstantTerm}
    (value : ev.constantTerm location isFirst positive term = .ok found) :
    ev.TermOfConstant location isFirst positive term found := by
  unfold constantTerm at value
  split at value
  · rename_i isStar
    split at value
    · rename_i leading
      cases value
      exact .here isStar leading
    · cases value
  · rename_i other
    split at value
    · rename_i symbol known
      split at value
      · rename_i isLocal
        cases value
        exact .inside other known isLocal
      · split at value
        · rename_i usage
          cases value
          exact .external other known usage
        · rename_i usage
          cases value
          exact .equated other known usage
        · cases value
    · rename_i absent
      split at value
      · rename_i read
        cases value
        exact .number other absent read
      · cases value

/-! ### Equates -/

/-- An equate is what the values of its terms reduce to, and an address unless it is the location
counter by itself. -/
theorem equate_ok {found : Equate} (value : ev.equate expression location limit = .ok found) :
    Joined expression limit ∧ (expression = star ∨ isAddress found.value = true) ∧
      ∃ values, ev.equateTerms location [] 0 ((signedTerms expression).map (·.1)) =
          .ok (values, found.relocations) ∧
        found.value = reduce values (expression.filter isOperator) := by
  unfold equate at value
  by_cases isStar : expression = star
  · rw [if_pos isStar] at value
    cases value
    subst isStar
    exact ⟨joined_star limit, Or.inl rfl, [location], rfl, rfl⟩
  · rw [if_neg isStar] at value
    cases parts : split expression limit with
    | error key =>
      rw [parts] at value
      cases value
    | ok terms =>
      obtain ⟨lengths, _, _⟩ := split_ok parts
      obtain ⟨operators, signed⟩ := signedTerms_of_split parts
      have operands : (signedTerms expression).map (·.1) = terms.operands := by
        rw [signed, List.map_fst_zip]
        rw [List.length_cons, lengths]
      rw [parts] at value
      dsimp only at value
      rw [← operands] at value
      split at value
      · cases value
      · rename_i values relocations evaluated
        split at value
        · rename_i inside
          cases value
          exact ⟨joined_of_split parts, Or.inr inside, values, evaluated, by rw [operators]⟩
        · cases value

/-! ### Address constants -/

theorem unmark_of_plain (plain : expression.head? ≠ some (byte '+')) :
    unmark expression = (false, expression) := by
  cases expression with
  | nil => rfl
  | cons first rest =>
    have other : first ≠ byte '+' := by simpa using plain
    simp [unmark, other]

theorem constantOf_ok {absolute : Bool} {terms : List ConstantTerm} {operators : Bytes}
    {found : Constant} (known : constantOf absolute terms operators = .ok found) :
    found.value = reduce (terms.map (·.value)) operators ∧
      found.literal = terms.all (·.literal) ∧
      found.adjustments = (if terms.all (·.literal) || absolute then []
        else terms.flatMap (·.adjustments)) ∧
      (if terms.any (·.external) then -Word.lastAddress else 0) ≤ found.value ∧
      found.value ≤ Word.lastAddress := by
  unfold constantOf at known
  dsimp only at known
  generalize (if terms.any (·.external) then -Word.lastAddress else 0) = low at known ⊢
  split at known
  · rename_i range
    cases known
    exact ⟨rfl, rfl, rfl, range⟩
  · cases known

/-- An address constant is small, whether or not an external symbol is to be added. -/
theorem constantOf_small {absolute : Bool} {terms : List ConstantTerm} {operators : Bytes}
    {found : Constant} (known : constantOf absolute terms operators = .ok found) :
    -Word.lastAddress ≤ found.value ∧ found.value ≤ Word.lastAddress := by
  obtain ⟨_, _, _, lower, upper⟩ := constantOf_ok known
  refine ⟨Int.le_trans ?_ lower, upper⟩
  split
  · exact Int.le_refl _
  · decide

/-- Every term of an address constant is evaluated, and what holds of a term holds of all. -/
theorem constantTerms_ok {holds : ConstantTerm → Prop}
    (each : ∀ {isFirst positive : Bool} {term : Bytes} {found : ConstantTerm},
      ev.constantTerm location isFirst positive term = .ok found → holds found)
    {terms : List (Bytes × UInt8)} {read all : List ConstantTerm}
    (before : ∀ term ∈ read, holds term)
    (evaluated : ev.constantTerms location read terms = .ok all) :
    all.length = read.length + terms.length ∧ ∀ term ∈ all, holds term := by
  induction terms generalizing read with
  | nil =>
    cases evaluated
    exact ⟨List.length_reverse, fun term member => before term (List.mem_reverse.1 member)⟩
  | cons first later ih =>
    simp only [constantTerms] at evaluated
    split at evaluated
    · cases evaluated
    · rename_i found known
      have extended : ∀ term ∈ found :: read, holds term := by
        intro term member
        rcases List.mem_cons.1 member with rfl | earlier
        · exact each known
        · exact before term earlier
      obtain ⟨length, all⟩ := ih extended evaluated
      rw [List.length_cons] at length ⊢
      exact ⟨by omega, all⟩

/-- An address constant without its mark is made of its terms. -/
theorem unmarkedConstant_ok {absolute : Bool} {found : Constant}
    (value : ev.unmarkedConstant absolute expression location limit = .ok found) :
    Joined expression limit ∧
      ∃ terms, ev.constantTerms location [] (signedTerms expression) = .ok terms ∧
        constantOf absolute terms (expression.filter isOperator) = .ok found := by
  unfold unmarkedConstant at value
  by_cases isStar : expression = star
  · rw [if_pos isStar] at value
    subst isStar
    exact ⟨joined_star limit, _, rfl, value⟩
  · rw [if_neg isStar] at value
    cases parts : split expression limit with
    | error key =>
      rw [parts] at value
      cases value
    | ok terms =>
      obtain ⟨operators, signed⟩ := signedTerms_of_split parts
      rw [parts] at value
      dsimp only at value
      rw [← signed, operators] at value
      split at value
      · cases value
      · rename_i found evaluated
        exact ⟨joined_of_split parts, found, evaluated, value⟩

theorem constant_isSmall {found : Constant}
    (value : ev.constant expression location limit = .ok found) :
    -Word.lastAddress ≤ found.value ∧ found.value ≤ Word.lastAddress := by
  obtain ⟨_, _, _, made⟩ := unmarkedConstant_ok value
  exact constantOf_small made

end Evaluator

end WordAssembler.Expression

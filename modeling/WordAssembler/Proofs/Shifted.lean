import Mathlib.Algebra.Order.BigOperators.Group.List
import Mathlib.Tactic.Ring
import WordAssembler.Proofs.Displaced
import WordAssembler.Proofs.Equates

/-!
Expressions of a program that is loaded some distance further. There its addresses are that much
larger, and an equated value as often as it counts the load address. A value then moves by the
distance for each term with the load address that is added, less those that are subtracted. An
equate counts both kinds alike, so its count is right just when it subtracts none; and an operand
expression adjusts for an equated term not at all, so it is right just when that term is not
relocatable.
-/

set_option autoImplicit false

namespace WordAssembler

theorem Numeral.wrap_fits (value : Int) : -2 ^ 63 ≤ wrap value ∧ wrap value < 2 ^ 63 := by
  have size : ((powerOfTwo 64 : Nat) : Int) = 2 ^ 64 := rfl
  have lower := Int.le_bmod (x := value) (m := powerOfTwo 64) (by decide)
  have upper := Int.bmod_lt (x := value) (m := powerOfTwo 64) (by decide)
  rw [size] at lower upper
  unfold wrap
  constructor
  · omega
  · omega

/-! ### Symbols -/

namespace Symbol

/-- The symbol of the program loaded some distance further: the address of a label or entry is that
much larger, and an equated value as often as it counts the load address. -/
def shifted (distance : Int) (symbol : Symbol) : Symbol :=
  match symbol.usage with
  | .label | .entry => { symbol with location := symbol.location.map (· + distance) }
  | .equated => { symbol with value := symbol.value + distance * symbol.relocations }
  | _ => symbol

/-- How often the load address is in what the symbol stands for. -/
def contribution (symbol : Symbol) : Int :=
  if symbol.usage = .equated then symbol.relocations else if symbol.isLocal then 1 else 0

variable {distance : Int} {symbol : Symbol}

@[simp] theorem shifted_label : (symbol.shifted distance).label = symbol.label := by
  unfold shifted
  split <;> rfl

@[simp] theorem shifted_usage : (symbol.shifted distance).usage = symbol.usage := by
  unfold shifted
  split <;> rfl

@[simp] theorem shifted_relocations :
    (symbol.shifted distance).relocations = symbol.relocations := by
  unfold shifted
  split <;> rfl

@[simp] theorem shifted_isLocal : (symbol.shifted distance).isLocal = symbol.isLocal := by
  cases usage : symbol.usage <;> simp [isLocal, isLocated, shifted, usage]

theorem shifted_value (equated : symbol.usage = .equated) :
    (symbol.shifted distance).value = symbol.value + distance * symbol.relocations := by
  unfold shifted
  rw [equated]

/-- A symbol with an address that is not negative has a location. -/
theorem shifted_address (inside : symbol.isLocal = true) (lower : 0 ≤ symbol.address) :
    (symbol.shifted distance).address = symbol.address + distance := by
  have located : symbol.location ≠ none := by
    intro absent
    rw [address, absent] at lower
    exact absurd lower (by decide)
  obtain ⟨location, found⟩ := Option.ne_none_iff_exists'.1 located
  rcases usage_of_isLocal inside with usage | usage <;> simp [shifted, usage, address, found]

namespace Table

/-- The symbols of the program loaded some distance further. -/
def shifted (distance : Int) (table : Table) : Table where
  symbols := table.symbols.map (Symbol.shifted distance)
  ascending := List.pairwise_map.2 (by simpa only [shifted_label, Ascending] using table.ascending)

@[simp] theorem get?_shifted (table : Table) (label : Bytes) :
    (table.shifted distance).get? label = (table.get? label).map (Symbol.shifted distance) := by
  have same : ((fun symbol : Symbol => symbol.label == label) ∘ Symbol.shifted distance) =
      fun symbol => symbol.label == label := by
    funext symbol
    simp
  simp only [get?, shifted, List.find?_map, same]

end Table

end Symbol

namespace Expression

def Evaluator.Equate.shifted (distance : Int) (equate : Evaluator.Equate) : Evaluator.Equate :=
  ⟨equate.value + distance * equate.relocations, equate.relocations⟩

/-- Amounts that are added some times to values are added as often to their sum. -/
theorem signedSum_add_mul (distance : Int) (found : List Evaluator.Equate) (operators : Bytes) :
    signedSum (((found.map (Evaluator.Equate.shifted distance)).map (·.value)).zip operators) =
      signedSum ((found.map (·.value)).zip operators) +
        distance * signedSum ((found.map (·.relocations)).zip operators) := by
  induction found generalizing operators with
  | nil => simp [signedSum_nil]
  | cons equate later ih =>
    cases operators with
    | nil => simp [signedSum_nil]
    | cons operator operators =>
      simp only [List.map_cons, List.zip_cons_cons, signedSum_cons, ih]
      split
      · simp only [Evaluator.Equate.shifted]
        ring
      · simp only [Evaluator.Equate.shifted]
        ring

/-- An expression moves with its values. -/
theorem reduce_shifted {operators : Bytes} (distance : Int)
    (isOperator : ∀ operator ∈ operators, Expression.isOperator operator = true)
    {found : List Evaluator.Equate} (lengths : found.length = operators.length + 1) :
    SameInteger (reduce ((found.map (Evaluator.Equate.shifted distance)).map (·.value)) operators)
      (reduce (found.map (·.value)) operators +
        distance * signedSum ((found.map (·.relocations)).zip (byte '+' :: operators))) := by
  have here := reduce_sameInteger isOperator (show (found.map (·.value)).length =
    operators.length + 1 by rw [List.length_map, lengths])
  have there := reduce_sameInteger isOperator
    (show ((found.map (Evaluator.Equate.shifted distance)).map (·.value)).length =
      operators.length + 1 by rw [List.length_map, List.length_map, lengths])
  rw [signedSum_add_mul] at there
  exact there.trans (here.symm.add_right _)

namespace Evaluator

/-- The evaluator of the program loaded some distance further. -/
def shifted (distance : Int) (ev : Evaluator) : Evaluator :=
  { ev with symbols := ev.symbols.shifted distance }

/-- Addresses of the program and counts of relocatable contributions are not negative. -/
structure Addressed (ev : Evaluator) : Prop where
  addresses : ∀ symbol ∈ ev.symbols.symbols, symbol.isLocal = true → 0 ≤ symbol.address
  counts : ∀ symbol ∈ ev.symbols.symbols, 0 ≤ symbol.relocations

/-- How often the load address is in the value of a term. -/
def contribution (ev : Evaluator) (term : Bytes) : Int :=
  if term = star then 1 else ((ev.symbols.get? term).map Symbol.contribution).getD 0

/-- How often the load address is in the terms with an operator. -/
def contributions (ev : Evaluator) (operator : UInt8) (terms : List (Bytes × UInt8)) : Int :=
  ((terms.filter (·.2 == operator)).map (ev.contribution ·.1)).sum

variable {ev : Evaluator} {location distance : Int} {term : Bytes}

theorem Addressed.contribution_nonneg (addressed : ev.Addressed) (term : Bytes) :
    0 ≤ ev.contribution term := by
  unfold contribution
  split
  · decide
  · cases known : ev.symbols.get? term with
    | none => decide
    | some symbol =>
      have count := addressed.counts symbol (Symbol.Table.mem_of_get? known)
      rw [Option.map_some, Option.getD_some, Symbol.contribution]
      repeat' split
      · exact count
      · decide
      · decide

theorem Addressed.contributions_nonneg (addressed : ev.Addressed) (operator : UInt8)
    (terms : List (Bytes × UInt8)) : 0 ≤ ev.contributions operator terms := by
  refine List.sum_nonneg fun count member => ?_
  obtain ⟨pair, _, rfl⟩ := List.mem_map.1 member
  exact addressed.contribution_nonneg pair.1

@[simp] theorem contributions_nil (operator : UInt8) : ev.contributions operator [] = 0 := rfl

@[simp] theorem contributions_cons (operator other : UInt8) (term : Bytes)
    (terms : List (Bytes × UInt8)) :
    ev.contributions operator ((term, other) :: terms) =
      (if other == operator then ev.contribution term else 0) +
        ev.contributions operator terms := by
  unfold contributions
  rw [List.filter_cons]
  split <;> simp

section Signed

variable {operands : List Bytes} {operators : Bytes}
  (isOperator : ∀ operator ∈ operators, Expression.isOperator operator = true)
include isOperator

/-- What the terms contribute is added or subtracted with them. -/
theorem signedSum_contributions : signedSum ((operands.map ev.contribution).zip operators) =
    ev.contributions (byte '+') (operands.zip operators) -
      ev.contributions (byte '-') (operands.zip operators) := by
  induction operands generalizing operators with
  | nil => simp [signedSum_nil]
  | cons term operands ih =>
    cases operators with
    | nil => simp [signedSum_nil]
    | cons operator operators =>
      have later := ih fun other member => isOperator other (List.mem_cons_of_mem _ member)
      simp only [List.map_cons, List.zip_cons_cons, signedSum_cons, contributions_cons, later]
      rcases eq_of_isOperator (isOperator operator List.mem_cons_self) with rfl | rfl
      · rw [if_pos (by decide), if_pos (by decide), if_neg (by decide)]
        ring
      · rw [if_neg (by decide), if_neg (by decide), if_pos (by decide)]
        ring

theorem sum_contributions (lengths : operands.length = operators.length) :
    (operands.map ev.contribution).sum =
      ev.contributions (byte '+') (operands.zip operators) +
        ev.contributions (byte '-') (operands.zip operators) := by
  induction operands generalizing operators with
  | nil => simp
  | cons term operands ih =>
    cases operators with
    | nil => cases lengths
    | cons operator operators =>
      have later := ih (fun other member => isOperator other (List.mem_cons_of_mem _ member))
        (Nat.succ.inj lengths)
      simp only [List.map_cons, List.sum_cons, List.zip_cons_cons, contributions_cons, later]
      rcases eq_of_isOperator (isOperator operator List.mem_cons_self) with rfl | rfl
      · rw [if_pos (by decide), if_neg (by decide)]
        ring
      · rw [if_neg (by decide), if_pos (by decide)]
        ring

end Signed

/-! ### Equates -/

theorem equateTerm_relocations {isFirst : Bool} {found : Equate}
    (value : ev.equateTerm location isFirst term = .ok found) :
    found.relocations = ev.contribution term := by
  unfold contribution
  cases equateTerm_ok value with
  | here isStar _ => rw [if_pos isStar]
  | equated other known usage =>
    rw [if_neg other, known, Option.map_some, Option.getD_some, Symbol.contribution, if_pos usage]
  | inside other known isLocal =>
    have plain := Symbol.ne_equated_of_isLocal isLocal
    rw [if_neg other, known, Option.map_some, Option.getD_some, Symbol.contribution, if_neg plain,
      if_pos isLocal]
  | number other absent _ =>
    rw [if_neg other, absent]
    rfl

/-- A term moves by the distance as often as it counts the load address. -/
theorem equateTerm_shifted (addressed : ev.Addressed) (isFirst : Bool) :
    (ev.shifted distance).equateTerm (location + distance) isFirst term =
      (ev.equateTerm location isFirst term).map (Equate.shifted distance) := by
  have table : (ev.shifted distance).symbols = ev.symbols.shifted distance := rfl
  unfold equateTerm
  rw [table, Symbol.Table.get?_shifted]
  split
  · split
    · simp [Except.map, Equate.shifted]
    · rfl
  · cases known : ev.symbols.get? term with
    | none =>
      dsimp only [Option.map_none]
      cases number? term with
      | none => rfl
      | some value => simp [Except.map, Equate.shifted]
    | some symbol =>
      have lower := addressed.addresses symbol (Symbol.Table.mem_of_get? known)
      dsimp only [Option.map_some]
      rw [Symbol.shifted_usage, Symbol.shifted_isLocal, Symbol.shifted_relocations]
      split
      · rename_i equated
        rw [Symbol.shifted_value equated]
        rfl
      · split
        · rename_i inside
          rw [Symbol.shifted_address inside (lower inside)]
          simp [Except.map, Equate.shifted]
        · rfl

theorem countMore_sameInteger (counted more : Int) :
    SameInteger (countMore counted more) (counted + more) :=
  Numeral.wrap_sameInteger _

/-- The terms of an equate at both places: every one moves by the distance as often as it counts
the load address, and the counts are added up. -/
theorem equateTerms_shifted (distance : Int) (addressed : ev.Addressed) (read : List Equate)
    {terms : List Bytes} {values : List Int} {counted total : Int}
    (evaluated : ev.equateTerms location (read.map (·.value)) counted terms =
      .ok (values, total)) :
    ∃ found : List Equate, found.map (·.relocations) = terms.map ev.contribution ∧
      values = (read.reverse ++ found).map (·.value) ∧
      SameInteger total (counted + (terms.map ev.contribution).sum) ∧
      (ev.shifted distance).equateTerms (location + distance)
          ((read.map (Equate.shifted distance)).map (·.value)) counted terms =
        .ok (((read.reverse ++ found).map (Equate.shifted distance)).map (·.value), total) := by
  induction terms generalizing read counted with
  | nil =>
    cases evaluated
    exact ⟨[], rfl, by simp, by simp, by simp [equateTerms]⟩
  | cons term later ih =>
    have empty : ((read.map (Equate.shifted distance)).map (·.value)).isEmpty =
        (read.map (·.value)).isEmpty := by simp
    simp only [equateTerms, empty, equateTerm_shifted addressed] at evaluated ⊢
    cases value : ev.equateTerm location (read.map (·.value)).isEmpty term with
    | error key =>
      rw [value] at evaluated
      cases evaluated
    | ok known =>
      rw [value] at evaluated
      obtain ⟨found, counts, values, sum, shifted⟩ := ih (known :: read) evaluated
      refine ⟨known :: found, ?_, ?_, ?_, ?_⟩
      · rw [List.map_cons, counts, equateTerm_relocations value, List.map_cons]
      · rw [values]
        simp
      · have step := countMore_sameInteger counted known.relocations
        rw [List.map_cons, List.sum_cons, ← equateTerm_relocations value, ← add_assoc]
        exact sum.trans (step.add_right _)
      · dsimp only [Except.map]
        have same : (Equate.shifted distance known).relocations = known.relocations := rfl
        rw [same]
        simpa using shifted

theorem equateTerms_fits {terms : List Bytes} {read values : List Int} {counted total : Int}
    (lower : -2 ^ 63 ≤ counted) (upper : counted < 2 ^ 63)
    (evaluated : ev.equateTerms location read counted terms = .ok (values, total)) :
    -2 ^ 63 ≤ total ∧ total < 2 ^ 63 := by
  induction terms generalizing read counted with
  | nil =>
    cases evaluated
    exact ⟨lower, upper⟩
  | cons term later ih =>
    simp only [equateTerms] at evaluated
    split at evaluated
    · cases evaluated
    · obtain ⟨above, below⟩ := Numeral.wrap_fits (counted + _)
      exact ih above below evaluated

/-- An equate at both places: the terms with the load address that are added move it forward, those
that are subtracted move it backward, and the count is of both. -/
structure Equate.Shifts (distance added subtracted : Int) (first second : Equate) : Prop where
  relocations : second.relocations = first.relocations
  counted : SameInteger first.relocations (added + subtracted)
  lower : -2 ^ 63 ≤ first.relocations
  upper : first.relocations < 2 ^ 63
  value : SameInteger second.value (first.value + distance * (added - subtracted))
  small : -2 ^ 63 ≤ distance * (added - subtracted) → distance * (added - subtracted) < 2 ^ 63 →
    second.value = first.value + distance * (added - subtracted)

section Shifts

variable {added subtracted : Int} {first second : Equate}
  (shifts : first.Shifts distance added subtracted second)
include shifts

theorem Equate.Shifts.sameInteger_iff :
    SameInteger second.value (first.value + distance * first.relocations) ↔
      2 ^ 63 ∣ distance * subtracted := by
  have count : SameInteger (distance * first.relocations) (distance * (added + subtracted)) :=
    shifts.counted.mul_left distance
  have value := shifts.value
  rw [mul_add] at count
  rw [mul_sub] at value
  -- count and movement differ by twice what is subtracted, so the modulus loses a factor of two
  constructor
  · intro counted
    have twice := (value.symm.trans (counted.trans (count.add_left _))).dvd
    omega
  · intro multiple
    refine value.trans (Int.ModEq.trans ?_ (count.symm.add_left _))
    refine Int.modEq_iff_dvd.2 ?_
    omega

theorem Equate.Shifts.value_iff (forward : 0 ≤ distance) (plus : 0 ≤ added)
    (minus : 0 ≤ subtracted) (small : distance * (added + subtracted) < 2 ^ 63) :
    second.value = first.value + distance * first.relocations ↔ distance = 0 ∨ subtracted = 0 := by
  have plusMoves := Int.mul_nonneg forward plus
  have minusMoves := Int.mul_nonneg forward minus
  have value := shifts.small (by rw [mul_sub]; rw [mul_add] at small; omega)
    (by rw [mul_sub]; rw [mul_add] at small; omega)
  rw [← Int.mul_eq_zero]
  rcases Int.le_iff_eq_or_lt.1 forward with still | further
  · rw [value, ← still]
    simp
  · -- a distance of at least one bounds the true count, so the count has not wrapped
    have lower := shifts.lower
    have upper := shifts.upper
    have few := Int.mul_le_mul_of_nonneg_right (Int.add_one_le_of_lt further)
      (Int.add_nonneg plus minus)
    rw [Int.zero_add, Int.one_mul] at few
    have count := SameInteger.eq_of_near shifts.counted (by omega) (by omega)
    rw [value, count, mul_sub, mul_add]
    omega

end Shifts

theorem equate_shifts {expression : Bytes} {limit : Int} {first second : Equate}
    (addressed : ev.Addressed) (here : ev.equate expression location limit = .ok first)
    (there : (ev.shifted distance).equate expression (location + distance) limit = .ok second) :
    first.Shifts distance (ev.contributions (byte '+') (signedTerms expression))
      (ev.contributions (byte '-') (signedTerms expression)) second := by
  obtain ⟨joined, inside, values, evaluated, value⟩ := equate_ok here
  obtain ⟨_, insideShifted, valuesShifted, evaluatedShifted, valueShifted⟩ := equate_ok there
  obtain ⟨lower, upper⟩ := equateTerms_fits (by decide) (by decide) evaluated
  obtain ⟨found, counts, rfl, sum, shifted⟩ := equateTerms_shifted distance addressed [] evaluated
  have shifted : (ev.shifted distance).equateTerms (location + distance) [] 0
      ((signedTerms expression).map (·.1)) =
        .ok ((found.map (Equate.shifted distance)).map (·.value), first.relocations) := shifted
  rw [shifted] at evaluatedShifted
  obtain ⟨rfl, relocations⟩ := Prod.mk.inj (Except.ok.inj evaluatedShifted)
  have signed : ∀ operator ∈ byte '+' :: expression.filter isOperator,
      isOperator operator = true :=
    List.forall_mem_cons.2 ⟨by decide, isOperator_of_mem_filter⟩
  have length : found.length = (expression.filter isOperator).length + 1 := by
    rw [← joined.length, ← List.length_map (f := (·.relocations)), counts, List.length_map,
      List.length_map]
  have moved := reduce_shifted distance isOperator_of_mem_filter length
  rw [counts, signedSum_contributions signed, joined.zip] at moved
  rw [zero_add, sum_contributions signed (by simpa using joined.length), joined.zip] at sum
  have moves : SameInteger second.value (first.value + distance *
      (ev.contributions (byte '+') (signedTerms expression) -
        ev.contributions (byte '-') (signedTerms expression))) := by
    rw [value, valueShifted]
    exact moved
  refine ⟨relocations.symm, sum, lower, upper, moves, fun above below => ?_⟩
  by_cases isStar : expression = star
  · -- The location counter by itself need not be small, and moves by the distance itself.
    have one : ev.contribution star = 1 := if_pos rfl
    have added : ev.contributions (byte '+') (signedTerms expression) = 1 := by
      rw [isStar, signedTerms_star, contributions_cons, contributions_nil, one]
      decide
    have subtracted : ev.contributions (byte '-') (signedTerms expression) = 0 := by
      rw [isStar, signedTerms_star, contributions_cons, contributions_nil, one]
      decide
    rw [equate, if_pos isStar] at here there
    cases here
    cases there
    rw [added, subtracted, sub_zero, mul_one]
  · have inside := inside.resolve_left isStar
    have insideShifted := insideShifted.resolve_left isStar
    rw [isAddress_iff, Word.lastAddress] at inside insideShifted
    exact SameInteger.eq_of_near moves (by omega) (by omega)

/-- Where an equate is loaded decides its value as its count says just when nothing that depends on
the load address is subtracted. -/
theorem equate_moves_iff (ev : Evaluator) (expression : Bytes) (location limit distance : Int)
    (first second : Equate) (addressed : ev.Addressed) (forward : 0 ≤ distance)
    (here : ev.equate expression location limit = .ok first)
    (there : (ev.shifted distance).equate expression (location + distance) limit = .ok second) :
    second.relocations = first.relocations ∧
      SameInteger first.relocations (ev.contributions (byte '+') (signedTerms expression) +
        ev.contributions (byte '-') (signedTerms expression)) ∧
      SameInteger second.value (first.value + distance *
        (ev.contributions (byte '+') (signedTerms expression) -
          ev.contributions (byte '-') (signedTerms expression))) ∧
      (SameInteger second.value (first.value + distance * first.relocations) ↔
        2 ^ 63 ∣ distance * ev.contributions (byte '-') (signedTerms expression)) ∧
      (distance * (ev.contributions (byte '+') (signedTerms expression) +
            ev.contributions (byte '-') (signedTerms expression)) < 2 ^ 63 →
          (second.value = first.value + distance * first.relocations ↔
            distance = 0 ∨ ev.contributions (byte '-') (signedTerms expression) = 0)) := by
  have plus := addressed.contributions_nonneg (byte '+') (signedTerms expression)
  have minus := addressed.contributions_nonneg (byte '-') (signedTerms expression)
  have shifts := equate_shifts addressed here there
  generalize ev.contributions (byte '+') (signedTerms expression) = added at *
  generalize ev.contributions (byte '-') (signedTerms expression) = subtracted at *
  exact ⟨shifts.relocations, shifts.counted, shifts.value, shifts.sameInteger_iff,
    shifts.value_iff forward plus minus⟩

end Evaluator

/-- The symbols of a program with two labels, and an equate that counts the load address twice. -/
def Evaluator.sample : Evaluator where
  symbols := ((Symbol.Table.empty.insert ⟨ascii "AA", some 0, .label, 0, 0⟩).insert
    ⟨ascii "BB", some 5, .label, 0, 0⟩).insert ⟨ascii "Twice", some 3, .equated, 10, 2⟩
  program := ascii "PROG"

theorem Evaluator.sample_addressed : Evaluator.sample.Addressed :=
  ⟨by decide +kernel, by decide +kernel⟩

theorem Evaluator.equate_moves_iff_mixed :
    Evaluator.sample.equate (ascii "*-AA+Twice-BB") 20 3 = .ok ⟨25, 5⟩ ∧
      (Evaluator.sample.shifted 3).equate (ascii "*-AA+Twice-BB") (20 + 3) 3 = .ok ⟨28, 5⟩ ∧
      SameInteger 28 (25 + 3 *
        (Evaluator.sample.contributions (byte '+') (signedTerms (ascii "*-AA+Twice-BB")) -
          Evaluator.sample.contributions (byte '-') (signedTerms (ascii "*-AA+Twice-BB")))) ∧
      Evaluator.sample.contributions (byte '-') (signedTerms (ascii "*-AA+Twice-BB")) ≠ 0 := by
  have here : Evaluator.sample.equate (ascii "*-AA+Twice-BB") 20 3 = .ok ⟨25, 5⟩ := by
    decide +kernel
  have there : (Evaluator.sample.shifted 3).equate (ascii "*-AA+Twice-BB") (20 + 3) 3 =
      .ok ⟨28, 5⟩ := by decide +kernel
  obtain ⟨_, _, value, _, exactly⟩ := Evaluator.equate_moves_iff Evaluator.sample
    (ascii "*-AA+Twice-BB") 20 3 3 ⟨25, 5⟩ ⟨28, 5⟩ Evaluator.sample_addressed (by decide) here there
  refine ⟨here, there, value, fun none => ?_⟩
  have counted := (exactly (by decide +kernel)).2 (Or.inr none)
  exact absurd counted (by decide)

/-- The distance of two labels does not move with the program, and counts the load address twice. -/
theorem Evaluator.equate_moves_not_counted : ¬ ∀ (ev : Evaluator) (expression : Bytes)
    (location limit distance : Int) (first second : Evaluator.Equate), ev.Addressed →
    0 ≤ distance → ev.equate expression location limit = .ok first →
    (ev.shifted distance).equate expression (location + distance) limit = .ok second →
      second.relocations = first.relocations ∧
        second.value = first.value + distance * first.relocations := by
  intro counted
  have moved := counted Evaluator.sample (ascii "BB-AA") 6 1 1 ⟨5, 2⟩ ⟨5, 2⟩
    Evaluator.sample_addressed (by decide) (by decide +kernel) (by decide +kernel)
  exact absurd moved.2 (by decide)

namespace Evaluator

/-! ### Operand expressions -/

/-- How often the load address is in an operand expression by its equated term, which is added to
`*` or subtracted. -/
def equatedShare (ev : Evaluator) : Bytes → Int
  | _ :: operator :: term =>
    let equated? := (ev.symbols.get? term).filter fun symbol =>
      Token.kindOf term = .label ∧ symbol.usage = .equated
    let count := (equated?.map (·.relocations)).getD 0
    if operator == byte '+' then count else -count
  | _ => 0

variable {ev : Evaluator} {location distance : Int} {term : Bytes}

theorem equatedShare_of_number {first operator : UInt8} (kind : Token.kindOf term ≠ .label) :
    ev.equatedShare (first :: operator :: term) = 0 := by
  have none : (ev.symbols.get? term).filter (fun symbol =>
      Token.kindOf term = .label ∧ symbol.usage = .equated) = none := by
    simp [kind]
  simp only [equatedShare, none]
  simp

theorem equatedShare_of_symbol (first operator : UInt8) {symbol : Symbol}
    (kind : Token.kindOf term = .label) (known : ev.symbols.get? term = some symbol) :
    ev.equatedShare (first :: operator :: term) =
      if symbol.usage = .equated then
        if operator == byte '+' then symbol.relocations else -symbol.relocations
      else 0 := by
  by_cases equated : symbol.usage = .equated
  · simp [equatedShare, kind, known, equated, Option.filter]
  · simp [equatedShare, kind, known, equated, Option.filter]

/-- The term after `*` at both places: it has the same adjustments, and moves by the distance for
each of them and as often as it is an equated symbol that counts the load address. -/
theorem operandTerm_shifted (addressed : ev.Addressed) (distance : Int) (first : UInt8)
    {operator : UInt8} {value : Int} {adjustments : List Adjustment}
    (here : ev.operandTerm operator term = .ok (value, adjustments)) :
    ∃ count, (ev.shifted distance).operandTerm operator term =
        .ok (value + distance * count, adjustments) ∧
      (if operator == byte '+' then count else -count) =
        net ev.program adjustments + ev.equatedShare (first :: operator :: term) := by
  have table : (ev.shifted distance).symbols = ev.symbols.shifted distance := rfl
  have found : ∀ {symbol : Symbol}, ev.symbols.get? term = some symbol →
      (ev.shifted distance).symbols.get? term = some (symbol.shifted distance) := by
    intro symbol known
    rw [table, Symbol.Table.get?_shifted, known, Option.map_some]
  cases operandTerm_iff.1 here with
  | number kind read small =>
    have share : ev.equatedShare (first :: operator :: term) = 0 :=
      equatedShare_of_number (by simp [kind])
    refine ⟨0, ?_, by simp [share]⟩
    rw [mul_zero, add_zero]
    exact operandTerm_iff.2 (.number kind read small)
  | @equated symbol kind length known usage =>
    have share := equatedShare_of_symbol first operator kind known
    refine ⟨symbol.relocations, ?_, ?_⟩
    · rw [← Symbol.shifted_value usage]
      exact operandTerm_iff.2
        (.equated kind length (found known) (by rwa [Symbol.shifted_usage]))
    · rw [share, if_pos usage, net_nil, zero_add]
  | @inside symbol kind length known isLocal =>
    have share := equatedShare_of_symbol first operator kind known
    have lower := addressed.addresses symbol (Symbol.Table.mem_of_get? known) isLocal
    refine ⟨1, ?_, ?_⟩
    · rw [mul_one, ← Symbol.shifted_address isLocal lower]
      exact operandTerm_iff.2
        (.inside kind length (found known) (by rwa [Symbol.shifted_isLocal]))
    · rw [share, if_neg (Symbol.ne_equated_of_isLocal isLocal), ownAdjustment, net_own, add_zero]

/-- An operand expression at both places: it has the same adjustments, and moves by the distance for
each of them and for its equated term. -/
structure OperandShifts (program : Bytes) (distance share : Int)
    (first second : Int × List Adjustment) : Prop where
  adjustments : second.2 = first.2
  value : SameInteger second.1 (first.1 + distance * (net program first.2 + share))
  small : |distance * (net program first.2 + share)| < 2 ^ 63 →
    second.1 = first.1 + distance * (net program first.2 + share)

/-- The location and a term after it, which move once and some times. -/
theorem reduce_pair_shifted {operator : UInt8} (isOperator : Expression.isOperator operator = true)
    (location operand distance count : Int) :
    SameInteger (reduce [location + distance, operand + distance * count] [operator])
      (reduce [location, operand] [operator] +
        distance * (1 + if operator == byte '+' then count else -count)) := by
  have moved := reduce_shifted distance (by simpa using isOperator)
    (show [Equate.mk location 1, ⟨operand, count⟩].length = [operator].length + 1 from rfl)
  simpa [Equate.shifted, signedSum_cons, signedSum_nil] using moved

theorem operandAfterStar_shifts {rest : Bytes} {first second : Int × List Adjustment}
    (addressed : ev.Addressed) (leading : UInt8)
    (here : ev.operandAfterStar location rest = .ok first)
    (there : (ev.shifted distance).operandAfterStar (location + distance) rest = .ok second) :
    OperandShifts ev.program distance (ev.equatedShare (leading :: rest)) first second := by
  cases rest with
  | nil => cases here
  | cons operator term =>
    simp only [operandAfterStar] at here there
    split at here
    · cases here
    · rename_i single
      rw [if_neg single] at there
      split at here
      · rename_i isOperator
        rw [if_pos isOperator] at there
        cases value : ev.operandTerm operator term with
        | error key =>
          rw [value] at here
          cases here
        | ok found =>
          obtain ⟨operand, adjustments⟩ := found
          obtain ⟨count, shifted, moves⟩ := operandTerm_shifted addressed distance leading value
          rw [value] at here
          rw [shifted] at there
          dsimp only at here there
          split at here
          · rename_i inside
            split at there
            · rename_i insideShifted
              cases here
              cases there
              have total : net ev.program (ev.ownAdjustment true :: adjustments) +
                  ev.equatedShare (leading :: operator :: term) =
                  1 + if operator == byte '+' then count else -count := by
                rw [moves, ← List.singleton_append, net_append, ownAdjustment, net_own, add_assoc]
                rfl
              have moved := reduce_pair_shifted isOperator location operand distance count
              rw [isAddress_iff, Word.lastAddress] at inside insideShifted
              refine ⟨rfl, ?_, fun small => ?_⟩
              · rw [total]
                exact moved
              · rw [total] at small ⊢
                obtain ⟨above, below⟩ := abs_lt.1 small
                dsimp only
                exact SameInteger.eq_of_near moved (by omega) (by omega)
            · cases there
          · cases here
      · cases here

theorem operand_shifts {expression : Bytes} {first second : Int × List Adjustment}
    (addressed : ev.Addressed) (here : ev.operand expression location = .ok first)
    (there : (ev.shifted distance).operand expression (location + distance) = .ok second) :
    OperandShifts ev.program distance (ev.equatedShare expression) first second := by
  unfold operand at here there
  by_cases isStar : expression = star
  · rw [if_pos isStar] at here there
    cases here
    cases there
    have share : ev.equatedShare expression = 0 := by rw [isStar]; rfl
    have moved : distance * (net ev.program [ev.ownAdjustment true] + ev.equatedShare expression) =
        distance := by
      rw [share, ownAdjustment, net_own]
      simp
    refine ⟨rfl, ?_, fun _ => ?_⟩
    · rw [moved]
    · rw [moved]
  · rw [if_neg isStar] at here there
    cases parts : split expression 1 with
    | error key =>
      rw [parts] at here
      cases here
    | ok terms =>
      rw [parts] at here there
      dsimp only at here there
      split at here
      · rename_i first rest
        dsimp only at there
        split at here
        · rename_i leading
          rw [if_pos leading] at there
          exact operandAfterStar_shifts addressed first here there
        · cases here
      · cases here

section OperandShifts

variable {program : Bytes} {share : Int} {first second : Int × List Adjustment}
  (shifts : OperandShifts program distance share first second)
include shifts

theorem OperandShifts.sameInteger_iff :
    SameInteger second.1 (first.1 + distance * net program first.2) ↔
      2 ^ 64 ∣ distance * share := by
  have value := shifts.value
  rw [mul_add, ← add_assoc] at value
  constructor
  · intro adjusted
    have multiple := (adjusted.symm.trans value).dvd
    omega
  · intro multiple
    refine value.trans (Int.modEq_iff_dvd.2 ?_)
    omega

theorem OperandShifts.value_iff (small : |distance * (net program first.2 + share)| < 2 ^ 63) :
    second.1 = first.1 + distance * net program first.2 ↔ distance = 0 ∨ share = 0 := by
  rw [shifts.small small, mul_add, ← Int.mul_eq_zero]
  omega

end OperandShifts

theorem operandInto_ok {expression : Bytes} {value : Int} {before : Modification}
    (evaluated : (ev.operandInto expression location before).1 = .ok value) :
    ∃ adjustments, ev.operand expression location = .ok (value, adjustments) ∧
      (ev.operandInto expression location before).2 = before.append adjustments := by
  unfold operandInto at evaluated ⊢
  cases found : ev.operand expression location with
  | error key =>
    rw [found] at evaluated
    cases evaluated
  | ok result =>
    rw [found] at evaluated
    cases evaluated
    exact ⟨result.2, rfl, rfl⟩

/-- Where an operand expression is loaded decides its value as its adjustments say just when its
term is not an equated symbol that counts the load address. -/
theorem operand_moves_iff (ev : Evaluator) (expression : Bytes) (location distance : Int)
    (first second : Int) (before beforeShifted : Modification) (addressed : ev.Addressed)
    (here : (ev.operandInto expression location before).1 = .ok first)
    (there : ((ev.shifted distance).operandInto expression (location + distance)
      beforeShifted).1 = .ok second) :
    ∃ adjustments,
      (ev.operandInto expression location before).2 = before.append adjustments ∧
      ((ev.shifted distance).operandInto expression (location + distance) beforeShifted).2 =
        beforeShifted.append adjustments ∧
      SameInteger second (first +
        distance * (net ev.program adjustments + ev.equatedShare expression)) ∧
      (SameInteger second (first + distance * net ev.program adjustments) ↔
        2 ^ 64 ∣ distance * ev.equatedShare expression) ∧
      (|distance * (net ev.program adjustments + ev.equatedShare expression)| < 2 ^ 63 →
        (second = first + distance * net ev.program adjustments ↔
          distance = 0 ∨ ev.equatedShare expression = 0)) := by
  obtain ⟨adjustments, value, appended⟩ := operandInto_ok here
  obtain ⟨others, valueShifted, appendedShifted⟩ := operandInto_ok there
  have shifts := operand_shifts addressed value valueShifted
  obtain rfl : others = adjustments := shifts.adjustments
  exact ⟨others, appended, appendedShifted, shifts.value, shifts.sameInteger_iff,
    shifts.value_iff⟩

theorem operand_moves_iff_equated :
    (sample.operandInto (ascii "*-Twice") 14 .blank).1 = .ok 4 ∧
      ((sample.shifted 3).operandInto (ascii "*-Twice") (14 + 3) .blank).1 = .ok 1 ∧
      sample.equatedShare (ascii "*-Twice") = -2 ∧
      ∃ adjustments,
        (sample.operandInto (ascii "*-Twice") 14 .blank).2 = Modification.blank.append adjustments ∧
        SameInteger 1 (4 + 3 * (net (ascii "PROG") adjustments +
          sample.equatedShare (ascii "*-Twice"))) := by
  have here : (sample.operandInto (ascii "*-Twice") 14 .blank).1 = .ok 4 := by decide +kernel
  have there : ((sample.shifted 3).operandInto (ascii "*-Twice") (14 + 3) .blank).1 = .ok 1 := by
    decide +kernel
  obtain ⟨adjustments, appended, _, value, _⟩ := operand_moves_iff sample (ascii "*-Twice") 14 3 4 1
    .blank .blank sample_addressed here there
  exact ⟨here, there, by decide +kernel, adjustments, appended, value⟩

/-- A term that is equated with the load address twice has no adjustment. -/
theorem operand_moves_not_adjusted : ¬ ∀ (ev : Evaluator) (expression : Bytes)
    (location distance : Int) (first second : Int × List Adjustment), ev.Addressed →
    0 ≤ distance → ev.operand expression location = .ok first →
    (ev.shifted distance).operand expression (location + distance) = .ok second →
      second.2 = first.2 ∧ second.1 = first.1 + distance * net ev.program first.2 := by
  intro adjusted
  have moved := adjusted sample (ascii "*+Twice") 4 1 (14, [⟨true, ascii "PROG"⟩])
    (17, [⟨true, ascii "PROG"⟩]) sample_addressed (by decide) (by decide +kernel)
    (by decide +kernel)
  exact absurd moved.2 (by decide +kernel)

/-! ### Address constants -/

/-- The evaluator with the shifted symbols is displaced by the distance. -/
theorem displaced_shifted (addressed : ev.Addressed) (distance : Int) :
    ev.Displaced distance (ev.shifted distance) := by
  refine ⟨rfl, fun label => ?_⟩
  show Option.Rel _ _ ((ev.symbols.shifted distance).get? label)
  rw [Symbol.Table.get?_shifted]
  cases known : ev.symbols.get? label with
  | none => exact .none
  | some symbol =>
    have lower := addressed.addresses symbol (Symbol.Table.mem_of_get? known)
    refine .some ⟨Symbol.shifted_label, Symbol.shifted_usage, Symbol.shifted_relocations, ?_, ?_⟩
    · intro inside
      rw [Symbol.shifted_address inside (lower inside)]
    · intro equated
      rw [Symbol.shifted_value equated]

theorem constantInto_ok {expression : Bytes} {limit : Int} {found : Constant}
    {before : Modification}
    (evaluated : (ev.constantInto expression location limit before).1 = .ok found) :
    ev.constant expression location limit = .ok found ∧
      (ev.constantInto expression location limit before).2 = before.append found.adjustments := by
  unfold constantInto at evaluated ⊢
  cases value : ev.constant expression location limit with
  | error key =>
    rw [value] at evaluated
    cases evaluated
  | ok result =>
    rw [value] at evaluated
    cases evaluated
    exact ⟨rfl, rfl⟩

/-- Where an address constant is loaded decides its value as its adjustments say: it has the same
ones at every place, and a literal one has none and stays as it is. -/
theorem constant_moves_adjusted (ev other : Evaluator) (expression : Bytes)
    (location place limit distance : Int) (first second : Constant)
    (before beforeThere : Modification) (displaced : ev.Displaced distance other)
    (adjustable : ev.Adjustable) (moved : SameInteger place (location + distance))
    (plain : expression.head? ≠ some (byte '+'))
    (here : (ev.constantInto expression location limit before).1 = .ok first)
    (there : (other.constantInto expression place limit beforeThere).1 = .ok second) :
    ∃ adjustments,
      (ev.constantInto expression location limit before).2 = before.append adjustments ∧
      (other.constantInto expression place limit beforeThere).2 =
        beforeThere.append adjustments ∧
      SameInteger second.value (first.value + distance * net ev.program adjustments) ∧
      second.literal = first.literal ∧
      (first.literal = true → adjustments = [] ∧ second.value = first.value) := by
  obtain ⟨value, appended⟩ := constantInto_ok here
  obtain ⟨valueThere, appendedThere⟩ := constantInto_ok there
  have moves := constant_displaced displaced adjustable moved plain value valueThere
  refine ⟨first.adjustments, appended, ?_, moves.value, moves.literal, fun literal => ?_⟩
  · rw [appendedThere, moves.adjustments]
  · -- The values are the same in 64-bit arithmetic, and too small to be a whole turn apart.
    have bare := moves.bare literal
    have same := moves.value
    rw [bare, net_nil, mul_zero, add_zero] at same
    have small := constant_isSmall value
    have smallThere := constant_isSmall valueThere
    unfold Word.lastAddress at small smallThere
    exact ⟨bare, same.eq_of_near (by omega) (by omega)⟩

/-- The program above with a symbol of another. -/
def linkedSample : Evaluator :=
  { sample with symbols := sample.symbols.insert ⟨ascii "Other", none, .external, 0, 0⟩ }

theorem constant_moves_adjusted_linkedSample :
    (linkedSample.constantInto (ascii "Twice-AA+Other-2") 20 3 .blank).1 =
        .ok ⟨8, [⟨true, ascii "PROG"⟩, ⟨true, ascii "PROG"⟩, ⟨false, ascii "PROG"⟩,
          ⟨true, ascii "Other"⟩], false, false⟩ ∧
      ((linkedSample.shifted 3).constantInto (ascii "Twice-AA+Other-2") 23 3 .blank).1 =
        .ok ⟨11, [⟨true, ascii "PROG"⟩, ⟨true, ascii "PROG"⟩, ⟨false, ascii "PROG"⟩,
          ⟨true, ascii "Other"⟩], false, false⟩ ∧
      ∃ adjustments,
        (linkedSample.constantInto (ascii "Twice-AA+Other-2") 20 3 .blank).2 =
          Modification.blank.append adjustments ∧
        SameInteger 11 (8 + 3 * net (ascii "PROG") adjustments) := by
  have here : (linkedSample.constantInto (ascii "Twice-AA+Other-2") 20 3 .blank).1 =
      .ok ⟨8, [⟨true, ascii "PROG"⟩, ⟨true, ascii "PROG"⟩, ⟨false, ascii "PROG"⟩,
        ⟨true, ascii "Other"⟩], false, false⟩ := by decide +kernel
  have there : ((linkedSample.shifted 3).constantInto (ascii "Twice-AA+Other-2") 23 3 .blank).1 =
      .ok ⟨11, [⟨true, ascii "PROG"⟩, ⟨true, ascii "PROG"⟩, ⟨false, ascii "PROG"⟩,
        ⟨true, ascii "Other"⟩], false, false⟩ := by decide +kernel
  obtain ⟨adjustments, appended, _, value, _⟩ := constant_moves_adjusted linkedSample
    (linkedSample.shifted 3) (ascii "Twice-AA+Other-2") 20 23 3 3 _ _ .blank .blank
    (displaced_shifted ⟨by decide +kernel, by decide +kernel⟩ 3)
    ⟨by decide +kernel, by decide +kernel⟩ (.refl 23) (by decide) here there
  exact ⟨here, there, adjustments, appended, value⟩

end Evaluator

end Expression

end WordAssembler

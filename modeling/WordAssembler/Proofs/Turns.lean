import Mathlib.Data.List.Count
import WordAssembler.Proofs.Evaluation
import WordAssembler.Proofs.Operand

/-!
Values of expressions over all integers. Terms are added and subtracted in 64-bit arithmetic, and
only the result is compared with the values it may have. It is therefore the value of the expression
up to full turns of that arithmetic: none if there is one operator at most, as in `EQU` and `ADC`,
but perhaps one if there are more.
-/

set_option autoImplicit false

namespace WordAssembler

/-- The largest integer of 64-bit arithmetic. -/
def Numeral.largest : Int := 2 ^ 63 - 1

theorem Numeral.readInteger?_le {text : Bytes} {value : Int}
    (read : readInteger? text = some value) : value ≤ largest := by
  unfold readInteger? at read
  have fits := (Option.filter_eq_some_iff.1 read).2
  have half : ((powerOfTwo 63 : Nat) : Int) = 2 ^ 63 := rfl
  rw [fitsInteger, half, Bool.and_eq_true, decide_eq_true_eq, decide_eq_true_eq] at fits
  unfold largest
  omega

namespace Expression

/-- A decimal term has no sign. -/
theorem number?_bounds {term : Bytes} {value : Int} (read : number? term = some value) :
    0 ≤ value ∧ value ≤ Numeral.largest := by
  unfold number? at read
  split at read
  · rename_i number
    refine ⟨?_, Numeral.readInteger?_le read⟩
    obtain ⟨n, _, rfl⟩ := Numeral.readInteger?_of_digits (Token.digits_of_kindOf number) read
    exact Int.natCast_nonneg n
  · cases read

/-! ### Bounds of sums -/

section Sums

variable {most : Int} {terms : List (Int × UInt8)}
  (values : ∀ term ∈ terms, 0 ≤ term.1 ∧ term.1 ≤ most)
include values

/-- Only the terms other than zero add to a sum. -/
theorem signedSum_le : signedSum terms ≤ most * terms.countP (·.1 ≠ 0) := by
  induction terms with
  | nil => simp [signedSum_nil]
  | cons term terms ih =>
    obtain ⟨value, operator⟩ := term
    obtain ⟨lower, upper⟩ := values (value, operator) List.mem_cons_self
    have later := ih fun other member => values other (List.mem_cons_of_mem _ member)
    have signed : (if operator == byte '+' then value else -value) ≤ value := by
      split <;> omega
    rw [signedSum_cons, List.countP_cons]
    by_cases zero : value = 0
    · subst zero
      simpa using later
    · have counted : decide ((value, operator).1 ≠ 0) = true := by simpa using zero
      rw [if_pos counted, Nat.cast_add, Nat.cast_one, mul_add, mul_one]
      omega

theorem le_signedSum : -(most * terms.length) ≤ signedSum terms := by
  induction terms with
  | nil => simp [signedSum_nil]
  | cons term terms ih =>
    obtain ⟨value, operator⟩ := term
    obtain ⟨lower, upper⟩ := values (value, operator) List.mem_cons_self
    have later := ih fun other member => values other (List.mem_cons_of_mem _ member)
    have signed : -most ≤ (if operator == byte '+' then value else -value) := by
      split <;> omega
    rw [signedSum_cons, List.length_cons, Nat.cast_add, Nat.cast_one, mul_add, mul_one]
    omega

end Sums

namespace Evaluator

/-! ### Exact values -/

/-- The value of a term at a location; external symbols count zero. -/
def termValue (ev : Evaluator) (location : Int) (term : Bytes) : Int :=
  if term = star then location
  else
    match ev.symbols.get? term with
    | some symbol =>
      if symbol.usage = .equated then symbol.value
      else if symbol.isLocal then symbol.address
      else 0
    | none => (number? term).getD 0

def isExternal (ev : Evaluator) (term : Bytes) : Bool :=
  term ≠ star && (ev.symbols.get? term).any (·.usage = .external)

/-- Adds a term to an integer of any size, or subtracts it. -/
def applyExact (operator : UInt8) (left right : Int) : Int :=
  if operator == byte '+' then left + right else left - right

/-- The value of an expression at a location, from left to right in integers of any size. -/
def exactValue (ev : Evaluator) (location : Int) (expression : Bytes) : Int :=
  (signedTerms expression).foldl
    (fun value term => applyExact term.2 value (ev.termValue location term.1)) 0

/-- The least value that an address constant may have. -/
def lowest (ev : Evaluator) (expression : Bytes) : Int :=
  if (signedTerms expression).any (ev.isExternal ·.1) then -Word.lastAddress else 0

/-- The addresses and the values of the symbols are in memory, or just past it. -/
structure InMemory (ev : Evaluator) : Prop where
  addresses : ∀ symbol ∈ ev.symbols.symbols, symbol.isLocal = true →
    0 ≤ symbol.address ∧ symbol.address ≤ Word.lastAddress + 1
  values : ∀ symbol ∈ ev.symbols.symbols,
    0 ≤ symbol.value ∧ symbol.value ≤ Word.lastAddress + 1

variable {ev : Evaluator} {expression term : Bytes} {location limit : Int}

/-- The values of terms, each with the operator before it. -/
def valued (ev : Evaluator) (location : Int) (terms : List (Bytes × UInt8)) : List (Int × UInt8) :=
  terms.map fun term => (ev.termValue location term.1, term.2)

theorem exactValue_eq (ev : Evaluator) (location : Int) (expression : Bytes) :
    ev.exactValue location expression =
      signedSum (ev.valued location (signedTerms expression)) := by
  have folded : ∀ (terms : List (Bytes × UInt8)) (start : Int),
      terms.foldl (fun value term =>
          applyExact term.2 value (ev.termValue location term.1)) start =
        start + signedSum (ev.valued location terms) := by
    intro terms
    induction terms with
    | nil => exact fun start => (Int.add_zero start).symm
    | cons term terms ih =>
      intro start
      rw [List.foldl_cons, ih]
      change _ = start + signedSum ((_, term.2) :: ev.valued location terms)
      rw [signedSum_cons, ← add_assoc]
      unfold applyExact
      split <;> rfl
  rw [exactValue, folded, zero_add]

theorem termValue_bounds (inMemory : ev.InMemory) (above : 0 ≤ location)
    (below : location ≤ Word.lastAddress + 1) (term : Bytes) :
    0 ≤ ev.termValue location term ∧ ev.termValue location term ≤ Numeral.largest := by
  have memory : Word.lastAddress + 1 ≤ Numeral.largest := by decide
  unfold termValue
  split
  · omega
  · split
    · rename_i symbol known
      have member := Symbol.Table.mem_of_get? known
      split
      · have inside := inMemory.values symbol member
        omega
      · split
        · rename_i isLocal
          have inside := inMemory.addresses symbol member isLocal
          omega
        · decide
    · cases read : number? term with
      | none =>
        change 0 ≤ (0 : Int) ∧ (0 : Int) ≤ Numeral.largest
        decide
      | some value => exact number?_bounds read

theorem termValue_of_external (external : ev.isExternal term = true) :
    ev.termValue location term = 0 := by
  simp only [isExternal, ne_eq, Bool.and_eq_true, decide_eq_true_eq,
    Option.any_eq_true] at external
  obtain ⟨other, symbol, known, usage⟩ := external
  simp [termValue, other, known, usage, Symbol.isLocal]

/-- The exact value with `count` operators: the first term is added, and one fewer than the terms
can be positive if one of them is external. -/
theorem exactValue_bounds (joined : Joined expression limit) (inMemory : ev.InMemory)
    (above : 0 ≤ location) (below : location ≤ Word.lastAddress + 1) {count : Nat}
    (length : (expression.filter isOperator).length = count) :
    -(Numeral.largest * count) ≤ ev.exactValue location expression ∧
      ev.exactValue location expression ≤ Numeral.largest * (count + 1) ∧
      ((signedTerms expression).any (ev.isExternal ·.1) = true →
        ev.exactValue location expression ≤ Numeral.largest * count) := by
  have size : (ev.valued location (signedTerms expression)).length = count + 1 := by
    rw [valued, List.length_map, joined.length, length]
  have values : ∀ term ∈ ev.valued location (signedTerms expression),
      0 ≤ term.1 ∧ term.1 ≤ Numeral.largest := by
    intro term member
    obtain ⟨written, _, rfl⟩ := List.mem_map.1 member
    exact termValue_bounds inMemory above below written.1
  have upper := signedSum_le values
  have most : (0 : Int) ≤ Numeral.largest := by decide
  rw [exactValue_eq]
  refine ⟨?_, ?_, fun external => ?_⟩
  · -- Only the terms after the first can be subtracted.
    cases parts : signedTerms expression with
    | nil =>
      rw [parts] at size
      cases size
    | cons first later =>
      have plus : first.2 = byte '+' := joined.leading first (by rw [parts]; rfl)
      rw [parts, valued, List.map_cons] at size values
      have lower := le_signedSum fun term member => values term (List.mem_cons_of_mem _ member)
      have leading := (values _ List.mem_cons_self).1
      rw [Nat.succ.inj size] at lower
      rw [valued, List.map_cons, signedSum_cons, plus, if_pos (by decide)]
      dsimp only at leading
      omega
  · refine Int.le_trans upper (Int.mul_le_mul_of_nonneg_left ?_ most)
    have all := List.countP_le_length (p := (·.1 ≠ 0))
      (l := ev.valued location (signedTerms expression))
    omega
  · refine Int.le_trans upper (Int.mul_le_mul_of_nonneg_left ?_ most)
    have fewer : (ev.valued location (signedTerms expression)).countP (·.1 ≠ 0) <
        (ev.valued location (signedTerms expression)).length := by
      rw [List.countP_lt_length_iff]
      obtain ⟨zero, member, isExternal⟩ := List.any_eq_true.1 external
      refine ⟨_, List.mem_map_of_mem member, ?_⟩
      simp [termValue_of_external isExternal]
    omega

/-! ### Evaluated terms -/

theorem equateTerm_value {isFirst : Bool} {found : Equate}
    (value : ev.equateTerm location isFirst term = .ok found) :
    found.value = ev.termValue location term := by
  unfold termValue
  cases equateTerm_ok value with
  | here isStar _ => rw [if_pos isStar]
  | equated other known usage =>
    rw [if_neg other, known]
    exact (if_pos usage).symm
  | inside other known isLocal =>
    rw [if_neg other, known]
    simp [Symbol.ne_equated_of_isLocal isLocal, isLocal]
  | number other absent read =>
    rw [if_neg other, absent, read]
    rfl

theorem equateTerms_values {terms : List Bytes} {read values : List Int}
    {counted relocations : Int}
    (evaluated : ev.equateTerms location read counted terms = .ok (values, relocations)) :
    values = read.reverse ++ terms.map (ev.termValue location) := by
  induction terms generalizing read counted with
  | nil =>
    cases evaluated
    rw [List.map_nil, List.append_nil]
  | cons term later ih =>
    simp only [equateTerms] at evaluated
    split at evaluated
    · cases evaluated
    · rename_i found value
      rw [ih evaluated, List.reverse_cons, equateTerm_value value, List.append_assoc]
      rfl

theorem constantTerm_value {isFirst positive : Bool} {found : ConstantTerm}
    (value : ev.constantTerm location isFirst positive term = .ok found) :
    found.value = ev.termValue location term ∧ found.external = ev.isExternal term := by
  unfold termValue isExternal
  cases constantTerm_ok value with
  | here isStar _ => simp [isStar]
  | inside other known isLocal =>
    rcases Symbol.usage_of_isLocal isLocal with usage | usage <;>
      simp [other, known, isLocal, usage]
  | external other known usage => simp [other, known, usage, Symbol.isLocal]
  | equated other known usage => simp [other, known, usage]
  | number other absent read => simp [other, absent, read]

theorem constantTerms_values {terms : List (Bytes × UInt8)} {read all : List ConstantTerm}
    (evaluated : ev.constantTerms location read terms = .ok all) :
    all.map (·.value) = (read.map (·.value)).reverse ++
        terms.map (fun term => ev.termValue location term.1) ∧
      all.map (·.external) = (read.map (·.external)).reverse ++
        terms.map (fun term => ev.isExternal term.1) := by
  induction terms generalizing read with
  | nil =>
    cases evaluated
    simp
  | cons term later ih =>
    obtain ⟨term, operator⟩ := term
    simp only [constantTerms] at evaluated
    split at evaluated
    · cases evaluated
    · rename_i found known
      obtain ⟨value, external⟩ := constantTerm_value known
      obtain ⟨values, externals⟩ := ih evaluated
      constructor
      · simpa [value] using values
      · simpa [external] using externals

/-- What the terms reduce to is the exact value in 64-bit arithmetic. -/
theorem reduce_exactValue (joined : Joined expression limit) :
    SameInteger
      (reduce ((signedTerms expression).map fun term => ev.termValue location term.1)
        (expression.filter isOperator))
      (ev.exactValue location expression) := by
  have lengths : ((signedTerms expression).map fun term => ev.termValue location term.1).length =
      (expression.filter isOperator).length + 1 := by
    rw [List.length_map, joined.length]
  have sum := reduce_sameInteger isOperator_of_mem_filter lengths
  have zipped : ((signedTerms expression).map fun term => ev.termValue location term.1).zip
      (byte '+' :: expression.filter isOperator) = ev.valued location (signedTerms expression) := by
    rw [← joined.signs, List.zip_map']
    rfl
  rw [zipped] at sum
  rw [exactValue_eq]
  exact sum

/-! ### Turns -/

/-- A value stands for an unbounded one if it is some turns of 64-bit arithmetic away: none just
when the unbounded one is possible, at most one in either direction for a location in memory, and
none there if there is one operator at most. -/
def StandsFor (possible : Prop) (location limit unbounded value : Int) : Prop :=
  ∃ turns : Int, unbounded = value + turns * 2 ^ 64 ∧ (turns = 0 ↔ possible) ∧
    (0 ≤ location → location ≤ Word.lastAddress + 1 →
      -1 ≤ turns ∧ turns ≤ 1 ∧ (limit ≤ 1 → turns = 0))

theorem StandsFor.self {possible : Prop} (holds : possible) (location limit value : Int) :
    StandsFor possible location limit value value :=
  ⟨0, by omega, by simpa using holds, fun _ _ => by omega⟩

/-- A value in its range stands for the unbounded one that `count` operators give. -/
theorem standsFor_of_range {unbounded value least : Int} (count : Nat)
    (same : SameInteger value unbounded) (negative : -Word.lastAddress ≤ least)
    (lower : least ≤ value) (upper : value ≤ Word.lastAddress) (few : (count : Int) ≤ 3)
    (single : limit ≤ 1 → (count : Int) ≤ 1)
    (bounds : 0 ≤ location → location ≤ Word.lastAddress + 1 →
      -(Numeral.largest * count) ≤ unbounded ∧ unbounded ≤ Numeral.largest * (count + 1) ∧
        (least < 0 → unbounded ≤ Numeral.largest * count)) :
    StandsFor (least ≤ unbounded ∧ unbounded ≤ Word.lastAddress) location limit unbounded
      value := by
  obtain ⟨turns, away⟩ := same.dvd
  unfold Word.lastAddress at *
  refine ⟨turns, by omega, ?_, fun above below => ?_⟩
  · constructor
    · intro none
      omega
    · intro possible
      omega
  · -- Four terms, each under half a turn, come to under two turns.
    obtain ⟨bottom, top, topBelow⟩ := bounds above below
    unfold Numeral.largest at bottom top topBelow
    refine ⟨by omega, by omega, fun one => ?_⟩
    have most := single one
    omega

theorem equate_standsFor {found : Equate} (inMemory : ev.InMemory) (few : limit ≤ 3)
    (value : ev.equate expression location limit = .ok found) :
    StandsFor (expression = star ∨ isAddress (ev.exactValue location expression) = true)
      location limit (ev.exactValue location expression) found.value := by
  obtain ⟨joined, inside, values, evaluated, reduced⟩ := equate_ok value
  rw [equateTerms_values evaluated, List.reverse_nil, List.nil_append, List.map_map] at reduced
  have same : SameInteger found.value (ev.exactValue location expression) :=
    reduced ▸ reduce_exactValue joined
  by_cases isStar : expression = star
  · have whole : ev.exactValue location expression = found.value := by
      rw [equate, if_pos isStar] at value
      cases value
      rw [isStar, exactValue, signedTerms_star]
      simp [applyExact, termValue]
    rw [whole]
    exact .self (Or.inl isStar) location limit found.value
  · have operators := joined.few.resolve_left isStar
    have range := inside.resolve_left isStar
    rw [isAddress_iff] at range
    simp only [isStar, false_or, isAddress_iff]
    refine standsFor_of_range (expression.filter isOperator).length same (by decide) range.1 range.2
      (by omega) (by omega) fun above below => ?_
    obtain ⟨bottom, top, _⟩ := exactValue_bounds joined inMemory above below rfl
    exact ⟨bottom, top, fun negative => absurd negative (by decide)⟩

theorem constant_standsFor {found : Constant} (inMemory : ev.InMemory) (few : limit ≤ 3)
    (value : ev.constant expression location limit = .ok found) :
    StandsFor (ev.lowest (unmark expression).2 ≤ ev.exactValue location (unmark expression).2 ∧
        ev.exactValue location (unmark expression).2 ≤ Word.lastAddress)
      location limit (ev.exactValue location (unmark expression).2) found.value := by
  change ev.unmarkedConstant (unmark expression).1 (unmark expression).2 location limit =
    .ok found at value
  generalize (unmark expression).1 = absolute at value
  generalize (unmark expression).2 = expression at value ⊢
  obtain ⟨joined, terms, evaluated, made⟩ := unmarkedConstant_ok value
  obtain ⟨reduced, _, _, lower, upper⟩ := constantOf_ok made
  obtain ⟨values, externals⟩ := constantTerms_values evaluated
  have same : SameInteger found.value (ev.exactValue location expression) := by
    rw [reduced, values]
    exact reduce_exactValue joined
  have external : terms.any (·.external) = (signedTerms expression).any (ev.isExternal ·.1) := by
    have mapped := congrArg (List.any · id) externals
    simpa [List.any_map] using mapped
  have least :
      (if terms.any (·.external) then -Word.lastAddress else 0) = ev.lowest expression := by
    rw [external, lowest]
  have operators : ((expression.filter isOperator).length : Int) ≤ 3 ∧
      (limit ≤ 1 → ((expression.filter isOperator).length : Int) ≤ 1) := by
    rcases joined.few with isStar | operators
    · rw [isStar]
      exact ⟨by decide, fun _ => by decide⟩
    · omega
  rw [least] at lower
  refine standsFor_of_range (expression.filter isOperator).length same ?_ lower upper operators.1
    operators.2 ?_
  · unfold lowest
    split <;> decide
  · intro above below
    obtain ⟨bottom, top, topBelow⟩ := exactValue_bounds joined inMemory above below rfl
    refine ⟨bottom, top, fun negative => topBelow ?_⟩
    unfold lowest at negative
    split at negative
    · assumption
    · exact absurd negative (by decide)

/-- The values of equates and address constants stand for those in integers of any size. They are
the same if and only if those are possible: an address or, for a constant with an external symbol,
the negative of one. -/
theorem values_standFor (ev : Evaluator) (expression : Bytes) (location limit : Int)
    (inMemory : ev.InMemory) (few : limit ≤ 3) :
    (∀ found, ev.equate expression location limit = .ok found →
      StandsFor (expression = star ∨ isAddress (ev.exactValue location expression) = true)
        location limit (ev.exactValue location expression) found.value) ∧
      ∀ found, ev.constant expression location limit = .ok found →
        StandsFor (ev.lowest (unmark expression).2 ≤ ev.exactValue location (unmark expression).2 ∧
            ev.exactValue location (unmark expression).2 ≤ Word.lastAddress)
          location limit (ev.exactValue location (unmark expression).2) found.value :=
  ⟨fun _ => equate_standsFor inMemory few, fun _ => constant_standsFor inMemory few⟩

end Evaluator

/-- An expression of decimal terms that make a full turn of 64-bit arithmetic. -/
def fullTurn : Bytes := ascii "9223372036854775807+9223372036854775807+2"

theorem Evaluator.values_standFor_fullTurn :
    (⟨.empty, ascii "PROG"⟩ : Evaluator).InMemory ∧
      (⟨.empty, ascii "PROG"⟩ : Evaluator).equate fullTurn 0 3 = .ok ⟨0, 0⟩ ∧
      ¬ isAddress ((⟨.empty, ascii "PROG"⟩ : Evaluator).exactValue 0 fullTurn) = true ∧
      (⟨.empty, ascii "PROG"⟩ : Evaluator).exactValue 0 fullTurn = 2 ^ 64 := by
  have inMemory : (⟨.empty, ascii "PROG"⟩ : Evaluator).InMemory := ⟨nofun, nofun⟩
  have value : (⟨.empty, ascii "PROG"⟩ : Evaluator).equate fullTurn 0 3 = .ok ⟨0, 0⟩ := by
    decide +kernel
  have outside :
      ¬ isAddress ((⟨.empty, ascii "PROG"⟩ : Evaluator).exactValue 0 fullTurn) = true := by
    decide +kernel
  obtain ⟨turns, unbounded, none, few⟩ :=
    (Evaluator.values_standFor ⟨.empty, ascii "PROG"⟩ fullTurn 0 3 inMemory (by decide)).1 _ value
  have some : turns ≠ 0 := fun zero => by
    rcases none.1 zero with isStar | inside
    · exact absurd isStar (by decide)
    · exact outside inside
  obtain ⟨least, most, _⟩ := few (by decide) (by decide)
  have positive : 0 ≤ (⟨.empty, ascii "PROG"⟩ : Evaluator).exactValue 0 fullTurn := by
    decide +kernel
  refine ⟨inMemory, value, outside, ?_⟩
  dsimp only at unbounded
  omega

/-- The value of an expression may be possible only because of a full turn. -/
theorem Evaluator.values_not_exact : ¬ ∀ (ev : Evaluator) (expression : Bytes)
    (location limit : Int), ev.InMemory → limit ≤ 3 →
    (∀ found, ev.equate expression location limit = .ok found →
      found.value = ev.exactValue location expression) ∧
      ∀ found, ev.constant expression location limit = .ok found →
        found.value = ev.exactValue location (unmark expression).2 := by
  intro same
  have value := (same ⟨.empty, ascii "PROG"⟩ fullTurn 0 3 ⟨nofun, nofun⟩ (by decide)).1 ⟨0, 0⟩
    (by decide +kernel)
  exact absurd value (by decide +kernel)

end Expression

end WordAssembler

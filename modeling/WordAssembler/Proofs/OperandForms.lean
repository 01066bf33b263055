import WordAssembler.Proofs.Alternation
import WordAssembler.Proofs.Numerals
import WordAssembler.Proofs.Shifted
import WordAssembler.Proofs.Substitution

/-!
The expressions that an operand may hold. They are `*` by itself, and `*` with a sign and a term
after it: a decimal number that is an address, or a name that the table holds as an equated symbol
or as an address of the program. Every other text is refused, and so is a result outside memory. The
location is always adjusted for, and the term just when it is an address.
-/

set_option autoImplicit false

namespace WordAssembler

namespace Expression

open Numeral (Denotes)

/-- Exactly the decimal numerals that fit are numbers. -/
theorem number?_eq_some_iff {term : Bytes} {value : Int} : number? term = some value ↔
    ∃ n : Nat, Denotes 10 term n ∧ (n : Int) < 2 ^ 63 ∧ value = n := by
  unfold number?
  constructor
  · intro read
    split at read
    · rename_i number
      exact (Numeral.readInteger?_of_number number).1 read
    · cases read
  · rintro ⟨n, denotes, small, rfl⟩
    rw [if_pos denotes.kindOf, Numeral.readInteger?_of_number denotes.kindOf]
    exact ⟨n, denotes, small, rfl⟩

namespace Evaluator

/-- A term that may follow a sign, the number that it stands for, and whether it is an address. -/
inductive Addend (ev : Evaluator) : Bytes → Int → Bool → Prop
  | number {run : Bytes} {value : Nat} (digits : Denotes 10 run value)
      (small : (value : Int) ≤ Word.lastAddress) : Addend ev run value false
  | equated {label : Bytes} {symbol : Symbol} (name : Token.isName label = true)
      (length : 2 ≤ label.length ∧ label.length ≤ 32)
      (known : ev.symbols.get? label = some symbol) (usage : symbol.usage = .equated) :
      Addend ev label symbol.value false
  | label {label : Bytes} {symbol : Symbol} (name : Token.isName label = true)
      (length : 2 ≤ label.length ∧ label.length ≤ 32)
      (known : ev.symbols.get? label = some symbol) (usage : symbol.usage = .label) :
      Addend ev label symbol.address true
  | entry {label : Bytes} {symbol : Symbol} (name : Token.isName label = true)
      (length : 2 ≤ label.length ∧ label.length ≤ 32)
      (known : ev.symbols.get? label = some symbol) (usage : symbol.usage = .entry)
      (located : symbol.isLocated = true) : Addend ev label symbol.address true

/-- The adjustments for a term that is added or subtracted: one if it is an address. -/
def addendAdjustments (ev : Evaluator) (positive relocates : Bool) : List Adjustment :=
  if relocates then [⟨positive, ev.program⟩] else []

/-- An operand expression at a location, its value, and its adjustments. -/
inductive OperandForm (ev : Evaluator) (location : Int) : Bytes → Int → List Adjustment → Prop
  | here : OperandForm ev location star location [⟨true, ev.program⟩]
  | added {term : Bytes} {number : Int} {relocates : Bool}
      (addend : ev.Addend term number relocates) (lower : 0 ≤ location + number)
      (upper : location + number ≤ Word.lastAddress) :
      OperandForm ev location (byte '*' :: byte '+' :: term) (location + number)
        (⟨true, ev.program⟩ :: ev.addendAdjustments true relocates)
  | subtracted {term : Bytes} {number : Int} {relocates : Bool}
      (addend : ev.Addend term number relocates) (lower : 0 ≤ location - number)
      (upper : location - number ≤ Word.lastAddress) :
      OperandForm ev location (byte '*' :: byte '-' :: term) (location - number)
        (⟨true, ev.program⟩ :: ev.addendAdjustments false relocates)

/-- Addresses are in memory, just past it or missing, and equated values in memory or just past
it. -/
structure Placed (ev : Evaluator) : Prop where
  addresses : ∀ symbol ∈ ev.symbols.symbols, symbol.address = Symbol.noAddress ∨
    (0 ≤ symbol.address ∧ symbol.address ≤ Word.lastAddress + 1)
  values : ∀ symbol ∈ ev.symbols.symbols, symbol.usage = .equated →
    0 ≤ symbol.value ∧ symbol.value ≤ Word.lastAddress + 1

variable {ev : Evaluator} {expression term : Bytes} {location value number : Int}
  {relocates : Bool} {adjustments : List Adjustment}

/-! ### Terms -/

theorem isLabelLength_iff {label : Bytes} :
    isLabelLength label = true ↔ 2 ≤ label.length ∧ label.length ≤ 32 := by
  simp [isLabelLength]

/-- Exactly these terms are evaluated, and an address asks for an adjustment with its sign. -/
theorem operandTerm_eq_ok_iff {operator : UInt8} :
    ev.operandTerm operator term = .ok (number, adjustments) ↔
      ∃ relocates, ev.Addend term number relocates ∧
        adjustments = ev.addendAdjustments (operator == byte '+') relocates := by
  rw [operandTerm_iff]
  constructor
  · intro found
    cases found with
    | number kind read small =>
      obtain ⟨n, denotes, _, rfl⟩ := number?_eq_some_iff.1 read
      exact ⟨false, .number denotes small, rfl⟩
    | equated kind length known usage =>
      exact ⟨false, .equated (Token.isName_of_label kind) (isLabelLength_iff.1 length) known usage,
        rfl⟩
    | @inside symbol kind length known isLocal =>
      have name := Token.isName_of_label kind
      have lengths := isLabelLength_iff.1 length
      rcases Symbol.usage_of_isLocal isLocal with usage | usage
      · exact ⟨true, .label name lengths known usage, rfl⟩
      · have located : symbol.isLocated = true := by simpa [Symbol.isLocal, usage] using isLocal
        exact ⟨true, .entry name lengths known usage located, rfl⟩
  · rintro ⟨relocates, addend, rfl⟩
    cases addend with
    | number digits small =>
      have fits := number?_eq_some_iff.2 ⟨_, digits, by unfold Word.lastAddress at small; omega, rfl⟩
      exact .number digits.kindOf fits small
    | equated name length known usage =>
      exact .equated (Token.kindOf_of_isName name) (isLabelLength_iff.2 length) known usage
    | label name length known usage =>
      exact .inside (Token.kindOf_of_isName name) (isLabelLength_iff.2 length) known
        (by simp [Symbol.isLocal, usage])
    | entry name length known usage located =>
      exact .inside (Token.kindOf_of_isName name) (isLabelLength_iff.2 length) known
        (by simp [Symbol.isLocal, usage, located])

/-- A term is written with letters and digits. -/
theorem Addend.isWord (addend : ev.Addend term number relocates) : term.IsWord := by
  cases addend with
  | number digits _ =>
    refine ⟨digits.nonempty, fun b member => ?_⟩
    obtain ⟨place, digit, small⟩ := digits.digit member
    simp [Bytes.isAlphanumeric, Numeral.isDigit_of_digitValue? digit small]
  | equated name => exact Bytes.isWord_of_label (Token.kindOf_of_isName name)
  | label name => exact Bytes.isWord_of_label (Token.kindOf_of_isName name)
  | entry name => exact Bytes.isWord_of_label (Token.kindOf_of_isName name)

theorem Addend.bounds (addend : ev.Addend term number relocates) (placed : ev.Placed) :
    -1 ≤ number ∧ number ≤ Word.lastAddress + 1 := by
  have address : ∀ {label : Bytes} {symbol : Symbol}, ev.symbols.get? label = some symbol →
      -1 ≤ symbol.address ∧ symbol.address ≤ Word.lastAddress + 1 := by
    intro label symbol known
    have bounds := placed.addresses symbol (Symbol.Table.mem_of_get? known)
    unfold Symbol.noAddress Word.lastAddress at *
    omega
  cases addend with
  | number digits small => omega
  | equated name length known usage =>
    have bounds := placed.values _ (Symbol.Table.mem_of_get? known) usage
    omega
  | label name length known usage => exact address known
  | entry name length known usage located => exact address known

/-! ### Expressions -/

/-- A location and a term come apart where the sign is. -/
theorem split_signed {operator : UInt8} (sign : isOperator operator = true) (word : term.IsWord) :
    split (byte '*' :: operator :: term) 1 = .ok ⟨[star, term], [operator]⟩ := by
  refine split_eq_ok_iff.2 ⟨⟨rfl, ?_, ?_, by simpa using sign, ?_⟩, Int.le_refl 1⟩
  · simpa using ⟨by decide, word.nonempty⟩
  · have plain := isOperator_of_word word
    have starless : ∀ b ∈ star, isOperator b = false := by
      intro b member
      rw [List.mem_singleton.1 member]
      rfl
    simpa using ⟨starless, plain⟩
  · simp [interleave, star]

/-- The value of a location and a term does not wrap around. -/
theorem reduce_signed {operator : UInt8} (sign : isOperator operator = true)
    (lower : 0 ≤ location) (upper : location ≤ Word.lastAddress) (above : -1 ≤ number)
    (below : number ≤ Word.lastAddress + 1) : reduce [location, number] [operator] =
      if operator = byte '+' then location + number else location - number := by
  unfold Word.lastAddress at upper below
  change apply operator location number = _
  rcases eq_of_isOperator sign with rfl | rfl
  · rw [apply, if_pos rfl, if_pos rfl, Numeral.wrap_of_small (by omega) (by omega)]
  · rw [apply, if_neg (by decide), if_pos rfl, if_neg (by decide),
      Numeral.wrap_of_small (by omega) (by omega)]

theorem isOperator_of_operandAfterStar {operator : UInt8} {found : Int × List Adjustment}
    (evaluated : ev.operandAfterStar location (operator :: term) = .ok found) :
    isOperator operator = true := by
  by_contra unsigned
  simp only [operandAfterStar, if_neg unsigned] at evaluated
  split at evaluated <;> cases evaluated

section Location

variable (placed : ev.Placed) (lower : 0 ≤ location) (upper : location ≤ Word.lastAddress)
include placed lower upper

/-- The value of a location and a term that is added or subtracted, if it is an address. -/
theorem operandAfterStar_eq_ok_iff {operator : UInt8} (sign : isOperator operator = true) :
    ev.operandAfterStar location (operator :: term) = .ok (value, adjustments) ↔
      ∃ number relocates, ev.Addend term number relocates ∧
        value = (if operator = byte '+' then location + number else location - number) ∧
        isAddress value = true ∧
        adjustments =
          ⟨true, ev.program⟩ :: ev.addendAdjustments (operator == byte '+') relocates := by
  have starless : operator ≠ byte '*' := by
    rintro rfl
    cases sign
  simp only [operandAfterStar, if_neg starless, if_pos sign]
  constructor
  · intro found
    cases evaluated : ev.operandTerm operator term with
    | error key =>
      rw [evaluated] at found
      cases found
    | ok result =>
      obtain ⟨number, more⟩ := result
      obtain ⟨relocates, addend, rfl⟩ := operandTerm_eq_ok_iff.1 evaluated
      obtain ⟨above, below⟩ := addend.bounds placed
      rw [evaluated] at found
      dsimp only at found
      rw [reduce_signed sign lower upper above below] at found
      by_cases inside : isAddress
          (if operator = byte '+' then location + number else location - number) = true
      · rw [if_pos inside] at found
        cases found
        exact ⟨number, relocates, addend, rfl, inside, rfl⟩
      · rw [if_neg inside] at found
        cases found
  · rintro ⟨number, relocates, addend, rfl, inside, rfl⟩
    obtain ⟨above, below⟩ := addend.bounds placed
    rw [operandTerm_eq_ok_iff.2 ⟨relocates, addend, rfl⟩]
    dsimp only
    rw [reduce_signed sign lower upper above below, if_pos inside]
    rfl

/-- Exactly these expressions are evaluated. -/
theorem operand_eq_ok_iff : ev.operand expression location = .ok (value, adjustments) ↔
    ev.OperandForm location expression value adjustments := by
  constructor
  · intro found
    unfold operand at found
    by_cases isStar : expression = star
    · rw [if_pos isStar] at found
      cases found
      subst isStar
      exact .here
    · rw [if_neg isStar] at found
      cases parts : split expression 1 with
      | error key =>
        rw [parts] at found
        cases found
      | ok terms =>
        rw [parts] at found
        dsimp only at found
        -- How the expression comes apart is of no account: what follows the star decides.
        cases expression with
        | nil => cases found
        | cons first rest =>
          by_cases leading : first = byte '*'
          · dsimp only at found
            rw [if_pos leading] at found
            cases rest with
            | nil => cases found
            | cons operator term =>
              have sign := isOperator_of_operandAfterStar found
              obtain ⟨number, relocates, addend, rfl, inside, rfl⟩ :=
                (operandAfterStar_eq_ok_iff placed lower upper sign).1 found
              rw [isAddress_iff] at inside
              subst leading
              rcases eq_of_isOperator sign with rfl | rfl
              · exact .added addend inside.1 inside.2
              · exact .subtracted addend inside.1 inside.2
          · dsimp only at found
            rw [if_neg leading] at found
            cases found
  · have signed : ∀ {operator : UInt8} {term : Bytes} {number : Int} {relocates : Bool},
        isOperator operator = true → ev.Addend term number relocates →
        isAddress (if operator = byte '+' then location + number else location - number) = true →
        ev.operand (byte '*' :: operator :: term) location =
          .ok (if operator = byte '+' then location + number else location - number,
            ⟨true, ev.program⟩ :: ev.addendAdjustments (operator == byte '+') relocates) := by
      intro operator term number relocates sign addend inside
      have longer : byte '*' :: operator :: term ≠ star := by simp [star]
      unfold operand
      rw [if_neg longer, split_signed sign addend.isWord]
      exact (operandAfterStar_eq_ok_iff placed lower upper sign).2
        ⟨number, relocates, addend, rfl, inside, rfl⟩
    intro form
    cases form with
    | here => rfl
    | added addend lower upper =>
      exact signed (show isOperator (byte '+') = true from rfl) addend
        (isAddress_iff.2 ⟨lower, upper⟩)
    | subtracted addend lower upper =>
      exact signed (show isOperator (byte '-') = true from rfl) addend
        (isAddress_iff.2 ⟨lower, upper⟩)

end Location

/-- An operand expression has a value just when it has one of the forms. Its adjustments are then
added to the modification after the ones that are there. -/
theorem operandInto_exact (ev : Evaluator) (expression : Bytes) (location : Int)
    (before : Modification) (placed : ev.Placed) (lower : 0 ≤ location)
    (upper : location ≤ Word.lastAddress) (value : Int) (after : Modification) :
    ev.operandInto expression location before = (.ok value, after) ↔
      ∃ adjustments, ev.OperandForm location expression value adjustments ∧
        after = before.append adjustments := by
  constructor
  · intro evaluated
    have accepted : (ev.operandInto expression location before).1 = .ok value := by rw [evaluated]
    obtain ⟨adjustments, found, appended⟩ := operandInto_ok accepted
    rw [evaluated] at appended
    exact ⟨adjustments, (operand_eq_ok_iff placed lower upper).1 found, appended⟩
  · rintro ⟨adjustments, form, rfl⟩
    rw [operandInto, (operand_eq_ok_iff placed lower upper).2 form]

theorem operandInto_exact_sample :
    sample.operandInto (ascii "*+BB") 14 .blank =
        (.ok 19, Modification.blank.append [⟨true, ascii "PROG"⟩, ⟨true, ascii "PROG"⟩]) ∧
      sample.operandInto (ascii "*-Twice") 14 .blank =
        (.ok 4, Modification.blank.append [⟨true, ascii "PROG"⟩]) := by
  have placed : sample.Placed := ⟨by decide +kernel, by decide +kernel⟩
  have known : sample.symbols.get? (ascii "BB") = some ⟨ascii "BB", some 5, .label, 0, 0⟩ := by
    decide +kernel
  have knownTwice : sample.symbols.get? (ascii "Twice") =
      some ⟨ascii "Twice", some 3, .equated, 10, 2⟩ := by decide +kernel
  have label : sample.Addend (ascii "BB") 5 true :=
    .label (by decide +kernel) (by decide +kernel) known rfl
  have equated : sample.Addend (ascii "Twice") 10 false :=
    .equated (by decide +kernel) (by decide +kernel) knownTwice rfl
  constructor
  · exact (operandInto_exact sample _ 14 .blank placed (by decide) (by decide) 19 _).2
      ⟨_, .added label (by decide) (by decide), rfl⟩
  · exact (operandInto_exact sample _ 14 .blank placed (by decide) (by decide) 4 _).2
      ⟨_, .subtracted equated (by decide) (by decide), rfl⟩

end Evaluator

end Expression

end WordAssembler

import WordAssembler.Proofs.Evaluation
import WordAssembler.Proofs.Fields

/-!
Expressions as terms joined by operators. An expression is taken apart by two scans, one for the
terms and one for the operators, and only the numbers of both are compared. That is enough: they are
right just when terms and operators alternate in the text, and the parts are then the only ones that
the text can be put together from.
-/

set_option autoImplicit false

namespace WordAssembler

/-! ### Runs and separators -/

section Pieces

variable {α : Type} {separates : α → Bool}

theorem pieces_cons_of_pos {mark : α} (parts : separates mark = true) (rest : List α) :
    pieces separates (mark :: rest) = [] :: pieces separates rest :=
  pieces_append_cons parts [] rest

/-- There is one run more than separators. -/
theorem length_pieces (items : List α) :
    (pieces separates items).length = (items.filter separates).length + 1 := by
  induction items with
  | nil => rfl
  | cons item rest ih =>
    cases parts : separates item with
    | true =>
      rw [pieces_cons_of_pos parts, List.length_cons, ih, List.filter_cons_of_pos parts,
        List.length_cons]
    | false =>
      obtain ⟨run, later, split⟩ := List.exists_cons_of_ne_nil (pieces_ne_nil rest)
      rw [pieces_cons_of_neg parts rest split, List.filter_cons_of_neg (by simp [parts]), ← ih,
        split, List.length_cons, List.length_cons]

/-- No run has a separator. -/
theorem free_of_mem_pieces {items run : List α} (member : run ∈ pieces separates items) :
    ∀ item ∈ run, separates item = false := by
  induction items generalizing run with
  | nil =>
    rw [List.mem_singleton.1 member]
    nofun
  | cons item rest ih =>
    cases parts : separates item with
    | true =>
      rw [pieces_cons_of_pos parts] at member
      rcases List.mem_cons.1 member with rfl | later
      · nofun
      · exact ih later
    | false =>
      obtain ⟨first, later, split⟩ := List.exists_cons_of_ne_nil (pieces_ne_nil rest)
      rw [pieces_cons_of_neg parts rest split] at member
      rw [split] at ih
      rcases List.mem_cons.1 member with rfl | member
      · intro other inside
        rcases List.mem_cons.1 inside with rfl | inside
        · exact parts
        · exact ih List.mem_cons_self other inside
      · exact ih (List.mem_cons_of_mem _ member)

end Pieces

namespace Expression

/-! ### Terms and operators in turn -/

/-- Terms and operators in turn, a term first. What is left of one of them stands at the end. -/
def interleave : List Bytes → Bytes → Bytes
  | operand :: operands, operator :: operators =>
    operand ++ operator :: interleave operands operators
  | operands, [] => operands.flatten
  | [], operators => operators

/-- The nonempty runs of a text, and its operators. -/
def Terms.scanned (expression : Bytes) : Terms :=
  ⟨(pieces isOperator expression).filter (!·.isEmpty), expression.filter isOperator⟩

/-- The terms and the operators alternate in the text: nonempty terms without an operator in them,
and a single operator between any two of them. -/
structure Terms.Alternate (terms : Terms) (expression : Bytes) : Prop where
  lengths : terms.operands.length = terms.operators.length + 1
  filled : ∀ term ∈ terms.operands, term ≠ []
  free : ∀ term ∈ terms.operands, ∀ b ∈ term, isOperator b = false
  operators : ∀ operator ∈ terms.operators, isOperator operator = true
  text : interleave terms.operands terms.operators = expression

/-- The runs of a text and its operators give the text again. -/
theorem interleave_pieces (expression : Bytes) :
    interleave (pieces isOperator expression) (expression.filter isOperator) = expression := by
  induction expression with
  | nil => rfl
  | cons b rest ih =>
    cases parts : isOperator b with
    | true =>
      rw [pieces_cons_of_pos parts, List.filter_cons_of_pos parts, interleave, ih,
        List.nil_append]
    | false =>
      obtain ⟨run, later, split⟩ := List.exists_cons_of_ne_nil (pieces_ne_nil rest)
      rw [pieces_cons_of_neg parts rest split, List.filter_cons_of_neg (by simp [parts])]
      rw [split] at ih
      -- The byte belongs to the first run, whatever follows it.
      cases operators : rest.filter isOperator with
      | nil =>
        rw [operators] at ih
        rw [← ih]
        rfl
      | cons operator operators' =>
        rw [operators] at ih
        rw [← ih]
        rfl

section Interleave

variable {operands : List Bytes} {operators : Bytes}
  (lengths : operands.length = operators.length + 1)
  (free : ∀ term ∈ operands, ∀ b ∈ term, isOperator b = false)
  (known : ∀ operator ∈ operators, isOperator operator = true)
include lengths free known

/-- Terms that are put together with operators come apart where they were put together. -/
theorem pieces_interleave : pieces isOperator (interleave operands operators) = operands ∧
    (interleave operands operators).filter isOperator = operators := by
  induction operators generalizing operands with
  | nil =>
    obtain ⟨term, rfl⟩ := List.length_eq_one_iff.1 lengths
    have inside := free term List.mem_cons_self
    have whole : interleave [term] [] = term := List.append_nil term
    rw [whole]
    exact ⟨pieces_of_free inside, List.filter_eq_nil_iff.2 fun b member => by simp [inside b member]⟩
  | cons operator operators ih =>
    cases operands with
    | nil => cases lengths
    | cons term operands =>
      obtain ⟨runs, signs⟩ := ih (Nat.succ.inj lengths)
        (fun other member => free other (List.mem_cons_of_mem _ member))
        (fun other member => known other (List.mem_cons_of_mem _ member))
      have inside := free term List.mem_cons_self
      have isOperator := known operator List.mem_cons_self
      have plain : term.filter Expression.isOperator = [] :=
        List.filter_eq_nil_iff.2 fun b member => by simp [inside b member]
      rw [interleave, pieces_append_cons isOperator, runs, pieces_of_free inside,
        List.filter_append, plain, List.filter_cons_of_pos isOperator, signs]
      exact ⟨rfl, rfl⟩

end Interleave

/-! ### Nonempty terms -/

/-- The nonempty terms in what follows a byte: one starts at each byte that is no operator, after
one that is. -/
def termsAfter (before : UInt8) : Bytes → Nat
  | [] => 0
  | b :: rest => (if isOperator before && !isOperator b then 1 else 0) + termsAfter b rest

/-- The number of nonempty terms of a text. The first may start it. -/
def termCount (expression : Bytes) : Nat := termsAfter (byte '+') expression

/-- Each nonempty run is a term; one that goes on from the byte before has been counted there. -/
theorem termsAfter_eq {before : UInt8} {expression run : Bytes} {later : List Bytes}
    (split : pieces isOperator expression = run :: later) :
    termsAfter before expression =
      (if isOperator before && !run.isEmpty then 1 else 0) +
        (later.filter (!·.isEmpty)).length := by
  induction expression generalizing before run later with
  | nil =>
    cases split
    simp [termsAfter]
  | cons b rest ih =>
    obtain ⟨first, others, parts⟩ := List.exists_cons_of_ne_nil (pieces_ne_nil rest)
    rw [termsAfter, ih parts]
    cases isOperator : Expression.isOperator b with
    | true =>
      rw [pieces_cons_of_pos isOperator, parts] at split
      cases split
      cases first <;> simp [Nat.add_comm]
    | false =>
      rw [pieces_cons_of_neg isOperator rest parts] at split
      cases split
      simp

theorem length_operands (expression : Bytes) :
    ((pieces isOperator expression).filter (!·.isEmpty)).length = termCount expression := by
  obtain ⟨run, later, split⟩ := List.exists_cons_of_ne_nil (pieces_ne_nil expression)
  have leading : isOperator (byte '+') = true := rfl
  rw [termCount, termsAfter_eq split, split, leading]
  cases run <;> simp [Nat.add_comm]

/-! ### Taking apart -/

section Split

variable {expression : Bytes} {limit : Int} {terms : Terms}

/-- Taking apart in terms of the two numbers that it compares. -/
theorem split_eq (expression : Bytes) (limit : Int) : split expression limit =
    if limit + 1 < termCount expression then .error .tooManyOperators
    else if (expression.filter isOperator).length + 1 ≠ termCount expression then
      .error .operatorCount
    else .ok (.scanned expression) := by
  unfold split Terms.scanned
  dsimp only
  rw [length_operands]
  by_cases many : limit + 1 < termCount expression
  · rw [if_pos many, if_pos (by omega)]
  · rw [if_neg many, if_neg (by omega)]
    by_cases lengths : (expression.filter isOperator).length + 1 = termCount expression
    · rw [if_neg (not_not.2 lengths), if_neg (by omega)]
    · rw [if_pos lengths, if_pos (by omega)]

/-- If the numbers are right, no term is empty, and terms and operators alternate. -/
theorem alternate_of_lengths
    (lengths : (expression.filter isOperator).length + 1 = termCount expression) :
    (Terms.scanned expression).Alternate expression := by
  have whole : (pieces isOperator expression).filter (!·.isEmpty) =
      pieces isOperator expression := by
    rw [← length_operands, ← length_pieces] at lengths
    exact List.filter_sublist.eq_of_length lengths.symm
  refine ⟨?_, fun term member => ?_, fun term member => ?_, isOperator_of_mem_filter, ?_⟩
  · rw [Terms.scanned, length_operands, lengths]
  · simpa using (List.mem_filter.1 member).2
  · exact free_of_mem_pieces (List.mem_of_mem_filter member)
  · rw [Terms.scanned, whole, interleave_pieces]

namespace Terms.Alternate

variable (alternate : terms.Alternate expression)
include alternate

/-- A text is put together from one list of terms only. -/
theorem eq_scanned : terms = Terms.scanned expression := by
  obtain ⟨runs, signs⟩ := pieces_interleave alternate.lengths alternate.free alternate.operators
  rw [alternate.text] at runs signs
  have filled : terms.operands.filter (!·.isEmpty) = terms.operands :=
    List.filter_eq_self.2 fun term member => by simpa using alternate.filled term member
  rw [Terms.scanned, runs, signs, filled]

theorem termCount_eq : termCount expression = terms.operators.length + 1 := by
  have counted : terms.operands.length = termCount expression := by
    rw [alternate.eq_scanned]
    exact length_operands expression
  rw [← counted, alternate.lengths]

end Terms.Alternate

theorem split_eq_ok_iff : split expression limit = .ok terms ↔
    terms.Alternate expression ∧ (terms.operators.length : Int) ≤ limit := by
  rw [split_eq]
  constructor
  · intro parts
    split at parts
    · cases parts
    · split at parts
      · cases parts
      · rename_i few lengths
        cases parts
        have alternate := alternate_of_lengths (not_not.1 lengths)
        have count := alternate.termCount_eq
        exact ⟨alternate, by omega⟩
  · rintro ⟨alternate, few⟩
    have count := alternate.termCount_eq
    rw [if_neg (by omega), ← alternate.eq_scanned, if_neg]
    rw [count, alternate.eq_scanned]
    exact not_not.2 rfl

theorem split_eq_error_iff {key : Key} : split expression limit = .error key ↔
    (key = .tooManyOperators ∧ limit + 1 < termCount expression) ∨
      (key = .operatorCount ∧ termCount expression ≤ limit + 1 ∧
        ¬ ∃ terms : Terms, terms.Alternate expression) := by
  rw [split_eq]
  by_cases many : limit + 1 < termCount expression
  · rw [if_pos many]
    constructor
    · intro fault
      cases fault
      exact Or.inl ⟨rfl, many⟩
    · rintro (⟨rfl, _⟩ | ⟨_, few, _⟩)
      · rfl
      · omega
  · rw [if_neg many]
    by_cases lengths : (expression.filter isOperator).length + 1 = termCount expression
    · have alternate := alternate_of_lengths lengths
      rw [if_neg (not_not.2 lengths)]
      constructor
      · nofun
      · rintro (⟨_, more⟩ | ⟨_, _, none⟩)
        · exact absurd more many
        · exact absurd ⟨_, alternate⟩ none
    · rw [if_pos lengths]
      constructor
      · intro fault
        cases fault
        refine Or.inr ⟨rfl, by omega, fun ⟨terms, alternate⟩ => lengths ?_⟩
        rw [alternate.termCount_eq, alternate.eq_scanned]
        rfl
      · rintro (⟨_, more⟩ | ⟨rfl, _, _⟩)
        · exact absurd more many
        · rfl

/-- An expression comes apart just when terms and operators alternate in it and the operators are
not too many, and which of two faults it has otherwise is told by the number of its terms. Each term
after the first has an operator before it. -/
theorem split_exact (expression : Bytes) (limit : Int) :
    (∀ terms, split expression limit = .ok terms ↔
      terms.Alternate expression ∧ (terms.operators.length : Int) ≤ limit) ∧
    (∀ key, split expression limit = .error key ↔
      (key = .tooManyOperators ∧ limit + 1 < termCount expression) ∨
      (key = .operatorCount ∧ termCount expression ≤ limit + 1 ∧
        ¬ ∃ terms : Terms, terms.Alternate expression)) ∧
    ∀ terms, split expression limit = .ok terms → ∀ n, n + 1 < terms.operands.length →
      ∃ operator, terms.operators[n]? = some operator ∧ isOperator operator = true := by
  refine ⟨fun terms => split_eq_ok_iff, fun key => split_eq_error_iff, ?_⟩
  intro terms parts n later
  obtain ⟨alternate, _⟩ := split_eq_ok_iff.1 parts
  have inside : n < terms.operators.length := by
    have lengths := alternate.lengths
    omega
  exact ⟨terms.operators[n], List.getElem?_eq_getElem inside,
    alternate.operators _ (List.getElem_mem inside)⟩

end Split

/-- Three terms come apart if two operators are allowed, the last with the operator before it; they
are too many for one operator. -/
theorem split_exact_threeTerms :
    split (ascii "AB+5-*") 2 = .ok ⟨[ascii "AB", ascii "5", ascii "*"], ascii "+-"⟩ ∧
      (∃ operator, (ascii "+-")[1]? = some operator ∧ isOperator operator = true) ∧
      split (ascii "AB+5-*") 1 = .error .tooManyOperators := by
  have free : [ascii "AB", ascii "5", ascii "*"].all (·.all (!isOperator ·)) = true := by decide
  have operators : (ascii "+-").all isOperator = true := by decide
  have alternate : Terms.Alternate ⟨[ascii "AB", ascii "5", ascii "*"], ascii "+-"⟩
      (ascii "AB+5-*") := by
    refine ⟨by decide, by decide, fun term member b inside => ?_, List.all_eq_true.1 operators,
      by decide⟩
    have plain := List.all_eq_true.1 (List.all_eq_true.1 free term member) b inside
    simpa using plain
  obtain ⟨apart, _, before⟩ := split_exact (ascii "AB+5-*") 2
  have parts := (apart _).2 ⟨alternate, by decide⟩
  obtain ⟨_, faults, _⟩ := split_exact (ascii "AB+5-*") 1
  exact ⟨parts, before _ parts 1 (by decide), (faults _).2 (Or.inl ⟨rfl, by decide⟩)⟩

end Expression

end WordAssembler

import WordAssembler.Proofs.Equates
import WordAssembler.Proofs.Names

/-!
A name that stands for a number. A symbol that is equated to a number that does not move with the
program can be replaced by that number: as a term of any expression it has the same value, asks for
no adjustment, and leaves the faults of the expression as they were.
-/

set_option autoImplicit false

namespace WordAssembler

open Expression

/-! ### Names and numbers -/

/-- The name stands for the number: it is equated to it, without relocatable contributions. The
digits of the number are no name. -/
structure Symbol.Table.Means (table : Symbol.Table) (name : Bytes) (value : Nat) : Prop where
  found : ∃ location, table.get? name = some ⟨name, location, .equated, value, 0⟩
  absent : table.get? (Numeral.digits 10 value) = none
  small : (value : Int) ≤ Word.lastAddress
  spelled : Token.kindOf name = .label
  length : isLabelLength name = true

/-- A number is read back, if it fits. -/
theorem Numeral.readInteger?_digits {value : Nat} (small : value < 2 ^ 63) :
    readInteger? (digits 10 value) = some (value : Int) := by
  have width : (powerOfTwo 63 : Int) = 2 ^ 63 := rfl
  have fits : fitsInteger value = true := by
    rw [fitsInteger, width, Bool.and_eq_true, decide_eq_true_eq, decide_eq_true_eq]
    constructor <;> omega
  have read := read?_digits value
  have digit : ∀ b ∈ digits 10 value, Bytes.isDigit b = true :=
    fun b member => isDigit_of_mem_digits member
  unfold readInteger?
  cases text : digits 10 value with
  | nil => exact absurd text (digits_ne_nil (by omega) value)
  | cons b rest =>
    rw [text] at read digit
    have first := digit b List.mem_cons_self
    have minus : b ≠ byte '-' := by
      rintro rfl
      cases first
    have plus : b ≠ byte '+' := by
      rintro rfl
      cases first
    dsimp only
    rw [if_neg minus, if_neg plus, read, Option.map_some, Option.filter_some]
    exact if_pos fits

theorem Token.ne_star_of_kind {term : Bytes} (kind : Token.kindOf term ≠ .expression) :
    term ≠ star := by
  rintro rfl
  exact kind rfl

namespace Symbol.Table.Means

variable {table : Symbol.Table} {name : Bytes} {value : Nat} (means : table.Means name value)
include means

theorem bounded : value < 2 ^ 63 := by
  have small := means.small
  simp only [Word.lastAddress] at small
  omega

theorem number? : number? (Numeral.digits 10 value) = some (value : Int) := by
  rw [Expression.number?, if_pos (kindOf_digits value),
    Numeral.readInteger?_digits means.bounded]

theorem word : name.IsWord := Bytes.isWord_of_label means.spelled

theorem name_ne_star : name ≠ star := Token.ne_star_of_kind (by simp [means.spelled])

end Symbol.Table.Means

theorem Numeral.digits_isWord (value : Nat) : Bytes.IsWord (digits 10 value) where
  nonempty := digits_ne_nil (by omega) value
  letters b member := by simp [Bytes.isAlphanumeric, isDigit_of_mem_digits member]

theorem Numeral.digits_ne_star (value : Nat) : digits 10 value ≠ star :=
  Token.ne_star_of_kind (by simp [kindOf_digits])

theorem Symbol.Table.Named.digits_absent {table : Symbol.Table} (named : table.Named)
    (value : Nat) : table.get? (Numeral.digits 10 value) = none := by
  cases found : table.get? (Numeral.digits 10 value) with
  | none => rfl
  | some symbol =>
    have spelled := named.spelled found
    rw [kindOf_digits] at spelled
    cases spelled

/-- A name keeps its number. -/
theorem Symbol.Table.Means.later {table next : Symbol.Table} {name : Bytes} {value : Nat}
    (means : table.Means name value) (extends_ : table.Extends next) (named : next.Named) :
    next.Means name value := by
  obtain ⟨location, found⟩ := means.found
  obtain ⟨symbol, known, evolves⟩ := extends_ name _ found
  rw [evolves.eq_of_equated rfl] at known
  exact ⟨⟨location, known⟩, named.digits_absent value, means.small, means.spelled, means.length⟩

/-! ### Terms -/

namespace Expression.Evaluator

variable {ev : Evaluator} {name : Bytes} {value : Nat} (means : ev.symbols.Means name value)
include means

theorem equateTerm_digits (location : Int) (isFirst : Bool) :
    ev.equateTerm location isFirst (Numeral.digits 10 value) =
      ev.equateTerm location isFirst name := by
  obtain ⟨place, found⟩ := means.found
  unfold equateTerm
  rw [if_neg (Numeral.digits_ne_star value), if_neg means.name_ne_star, found, means.absent]
  dsimp only
  rw [means.number?]
  rfl

theorem constantTerm_digits (location : Int) (isFirst positive : Bool) :
    ev.constantTerm location isFirst positive (Numeral.digits 10 value) =
      ev.constantTerm location isFirst positive name := by
  obtain ⟨place, found⟩ := means.found
  unfold constantTerm
  rw [if_neg (Numeral.digits_ne_star value), if_neg means.name_ne_star, found, means.absent]
  dsimp only
  rw [means.number?]
  rfl

theorem operandTerm_digits (operator : UInt8) :
    ev.operandTerm operator (Numeral.digits 10 value) = ev.operandTerm operator name := by
  obtain ⟨place, found⟩ := means.found
  unfold operandTerm
  rw [kindOf_digits, means.spelled]
  dsimp only
  rw [means.number?, if_pos means.length, found]
  dsimp only
  rw [if_pos means.small]
  rfl

end Expression.Evaluator

/-! ### Expressions as tokens -/

namespace Token

/-- Letters, digits and marks, one of them a mark. -/
structure Marked (text : Bytes) : Prop where
  bytes : ∀ b ∈ text, Bytes.isAlphanumeric b = true ∨ isMark b = true
  mark : ∃ b ∈ text, isMark b = true

theorem isAlphanumeric_of_isMark {b : UInt8} (mark : isMark b = true) :
    Bytes.isAlphanumeric b = false := by
  simp only [isMark, Bool.or_eq_true, beq_iff_eq] at mark
  rcases mark with (rfl | rfl) | rfl <;> rfl

theorem isMark_of_isOperator {b : UInt8} (operator : isOperator b = true) : isMark b = true := by
  rcases Bool.or_eq_true_iff.1 operator with plus | minus
  · simp [isMark, plus]
  · simp [isMark, minus]

theorem marked_of_expression {text : Bytes} (kind : kindOf text = .expression) :
    Marked text := by
  have said : isExpression text = true := by
    unfold kindOf at kind
    repeat' split at kind
    all_goals cases kind
    assumption
  simp only [isExpression, Bool.and_eq_true, List.all_eq_true, List.any_eq_true,
    Bool.or_eq_true] at said
  exact ⟨said.1, said.2⟩

theorem Marked.kindOf {text : Bytes} (marked : Marked text) : kindOf text = .expression := by
  obtain ⟨bytes, mark, member, isMark⟩ := marked
  have other : ∀ b : UInt8, Bytes.isAlphanumeric b = false → Token.isMark b = false → b ∉ text := by
    intro b letterless unmarked inside
    rcases bytes b inside with letter | marks
    · rw [letterless] at letter
      cases letter
    · rw [unmarked] at marks
      cases marks
  have letterless := isAlphanumeric_of_isMark isMark
  have filled : text.isEmpty = false := by
    rw [List.isEmpty_eq_false_iff]
    exact List.ne_nil_of_mem member
  have uncommented : text.head? ≠ some (byte ':') := by
    intro head
    exact other (byte ':') rfl rfl (List.mem_of_head? head)
  have plain : startsLiteral text = false := by
    unfold startsLiteral
    split
    · rename_i letter sign rest
      have equals : sign ≠ byte '=' := by
        rintro rfl
        exact other (byte '=') rfl rfl (by simp)
      simp [equals]
    · rfl
  have numberless : text.all Bytes.isDigit = false := by
    rw [List.all_eq_false]
    refine ⟨mark, member, fun digit => ?_⟩
    simp [Bytes.isAlphanumeric, digit] at letterless
  have nameless : isName text = false := by
    cases name : isName text with
    | false => rfl
    | true =>
      cases text with
      | nil => cases member
      | cons first rest =>
        simp only [isName, Bool.and_eq_true, List.all_eq_true] at name
        rcases List.mem_cons.1 member with rfl | later
        · simp [Bytes.isAlphanumeric, name.1] at letterless
        · rw [name.2 mark later] at letterless
          cases letterless
  have said : isExpression text = true := by
    simp only [isExpression, Bool.and_eq_true, List.all_eq_true, List.any_eq_true,
      Bool.or_eq_true]
    exact ⟨bytes, mark, member, isMark⟩
  simp [Token.kindOf, filled, uncommented, plain, numberless, nameless, said]

end Token

/-! ### Expressions with a term replaced -/

namespace Expression

/-- A term of an expression is replaced by another. -/
inductive Replaces (term other : Bytes) : Bytes → Bytes → Prop
  | intro (before after : Bytes) (start : before.getLast?.all isOperator = true)
      (finish : after.head?.all isOperator = true) :
      Replaces term other (before ++ term ++ after) (before ++ other ++ after)

/-- A word has letters and digits only. -/
theorem isOperator_of_word {word : Bytes} (isWord : word.IsWord) :
    ∀ b ∈ word, isOperator b = false := by
  intro b member
  have letter := isWord.letters b member
  cases operator : isOperator b with
  | false => rfl
  | true =>
    rcases Bool.or_eq_true_iff.1 operator with plus | minus
    · rw [beq_iff_eq] at plus
      rw [plus] at letter
      cases letter
    · rw [beq_iff_eq] at minus
      rw [minus] at letter
      cases letter

/-- The terms around a word do not depend on the word. -/
theorem pieces_around {before after : Bytes} (start : before.getLast?.all isOperator = true)
    (finish : after.head?.all isOperator = true) :
    ∃ front back, ∀ word : Bytes, word.IsWord →
      pieces isOperator (before ++ word ++ after) = front ++ word :: back := by
  obtain ⟨back, later⟩ : ∃ back, ∀ word : Bytes, word.IsWord →
      pieces isOperator (word ++ after) = word :: back := by
    cases after with
    | nil =>
      refine ⟨[], fun word isWord => ?_⟩
      rw [List.append_nil]
      exact pieces_of_free (isOperator_of_word isWord)
    | cons operator rest =>
      have parts : isOperator operator = true := finish
      refine ⟨pieces isOperator rest, fun word isWord => ?_⟩
      rw [pieces_append_cons parts, pieces_of_free (isOperator_of_word isWord)]
      rfl
  rcases List.eq_nil_or_concat before with rfl | ⟨lead, operator, rfl⟩
  · exact ⟨[], back, later⟩
  · refine ⟨pieces isOperator lead, back, fun word isWord => ?_⟩
    have parts : isOperator operator = true := by simpa using start
    rw [List.concat_eq_append, List.append_assoc, List.append_assoc, List.singleton_append,
      pieces_append_cons parts, later word isWord]

theorem filter_around {before after word : Bytes} (isWord : word.IsWord) :
    (before ++ word ++ after).filter isOperator =
      before.filter isOperator ++ after.filter isOperator := by
  have none : word.filter isOperator = [] := by
    rw [List.filter_eq_nil_iff]
    intro b member
    rw [isOperator_of_word isWord b member]
    exact Bool.false_ne_true
  rw [List.filter_append, List.filter_append, none, List.append_nil]

theorem split_word {word : Bytes} (isWord : word.IsWord) {limit : Int} (lower : 0 ≤ limit) :
    split word limit = .ok ⟨[word], []⟩ := by
  have filled : word.isEmpty = false := by simpa using isWord.nonempty
  have none : word.filter isOperator = [] := by
    have around : ([] ++ word ++ []).filter isOperator = [] := filter_around isWord
    rwa [List.nil_append, List.append_nil] at around
  unfold split
  rw [pieces_of_free (isOperator_of_word isWord), none,
    List.filter_cons_of_pos (by simp [filled]), List.filter_nil]
  dsimp only
  rw [if_neg (by simp; omega), if_neg (by simp)]

section Replaces

variable {term other first second : Bytes} (replaces : Replaces term other first second)
  (isWord : term.IsWord) (isOther : other.IsWord)
include replaces isWord isOther

/-- The expressions come apart in the same way. -/
theorem split_replaces (limit : Int) :
    (∃ key, split first limit = .error key ∧ split second limit = .error key) ∨
      ∃ front back operators, split first limit = .ok ⟨front ++ term :: back, operators⟩ ∧
        split second limit = .ok ⟨front ++ other :: back, operators⟩ := by
  obtain ⟨before, after, start, finish⟩ := replaces
  obtain ⟨front, back, around⟩ := pieces_around start finish
  have operands : ∀ word : Bytes, word.IsWord →
      (pieces isOperator (before ++ word ++ after)).filter (!·.isEmpty) =
        front.filter (!·.isEmpty) ++ word :: back.filter (!·.isEmpty) := by
    intro word isWord
    have filled : word.isEmpty = false := by simpa using isWord.nonempty
    rw [around word isWord, List.filter_append, List.filter_cons_of_pos (by simp [filled])]
  unfold split
  dsimp only
  rw [operands term isWord, operands other isOther, filter_around isWord, filter_around isOther]
  simp only [List.length_append, List.length_cons]
  by_cases many : limit < ((front.filter (!·.isEmpty)).length +
      ((back.filter (!·.isEmpty)).length + 1) : Nat) - 1
  · rw [if_pos many, if_pos many]
    exact Or.inl ⟨_, rfl, rfl⟩
  · rw [if_neg many, if_neg many]
    split
    · exact Or.inl ⟨_, rfl, rfl⟩
    · exact Or.inr ⟨_, _, _, rfl, rfl⟩

end Replaces

/-- Around the term there is a mark, if there is anything. -/
theorem marked_around {before after word : Bytes} (isWord : word.IsWord)
    (start : before.getLast?.all isOperator = true) (finish : after.head?.all isOperator = true)
    (more : before ≠ [] ∨ after ≠ [])
    (bytes : ∀ b ∈ before ++ after, Bytes.isAlphanumeric b = true ∨ Token.isMark b = true) :
    Token.Marked (before ++ word ++ after) := by
  refine ⟨fun b member => ?_, ?_⟩
  · simp only [List.mem_append] at member bytes
    rcases member with (front | inside) | back
    · exact bytes b (Or.inl front)
    · exact Or.inl (isWord.letters b inside)
    · exact bytes b (Or.inr back)
  · rcases more with front | back
    · obtain ⟨lead, operator, rfl⟩ := (List.eq_nil_or_concat before).resolve_left front
      have operates : isOperator operator = true := by simpa using start
      exact ⟨operator, by simp, Token.isMark_of_isOperator operates⟩
    · obtain ⟨operator, rest, rfl⟩ := List.exists_cons_of_ne_nil back
      exact ⟨operator, by simp, Token.isMark_of_isOperator finish⟩

theorem ne_star_around {before after word : Bytes} (isWord : word.IsWord) :
    before ++ word ++ after ≠ star := by
  intro alone
  obtain ⟨b, rest, rfl⟩ := List.exists_cons_of_ne_nil isWord.nonempty
  have member : b ∈ star := by
    rw [← alone]
    simp
  have letter := isWord.letters b List.mem_cons_self
  rw [List.mem_singleton.1 member] at letter
  cases letter

theorem Evaluator.unmark_word {word : Bytes} (isWord : word.IsWord) (after : Bytes) :
    unmark (word ++ after) = (false, word ++ after) := by
  obtain ⟨b, rest, rfl⟩ := List.exists_cons_of_ne_nil isWord.nonempty
  have unmarked : b ≠ byte '+' :=
    Bytes.ne_of_isAlphanumeric (isWord.letters b List.mem_cons_self) rfl
  rw [List.cons_append, unmark, if_neg unmarked]

/-- The mark of an address constant stands before the term. -/
theorem Replaces.unmark {term other first second : Bytes}
    (replaces : Replaces term other first second) (isWord : term.IsWord)
    (isOther : other.IsWord) :
    (Evaluator.unmark second).1 = (Evaluator.unmark first).1 ∧
      Replaces term other (Evaluator.unmark first).2 (Evaluator.unmark second).2 := by
  obtain ⟨before, after, start, finish⟩ := replaces
  cases before with
  | nil =>
    rw [List.nil_append, List.nil_append, Evaluator.unmark_word isWord,
      Evaluator.unmark_word isOther]
    exact ⟨rfl, .intro [] after rfl finish⟩
  | cons b rest =>
    rw [List.cons_append, List.cons_append, List.cons_append, List.cons_append, Evaluator.unmark,
      Evaluator.unmark]
    split
    · refine ⟨rfl, .intro rest after ?_ finish⟩
      cases rest with
      | nil => rfl
      | cons c rest => rwa [List.getLast?_cons_cons] at start
    · exact ⟨rfl, .intro (b :: rest) after start finish⟩

end Expression

namespace Expression.Evaluator

variable {ev : Evaluator} {location limit : Int} {term other : Bytes}

theorem equateTerms_congr
    (same : ∀ isFirst, ev.equateTerm location isFirst other = ev.equateTerm location isFirst term)
    (front back : List Bytes) (values : List Int) (counted : Int) :
    ev.equateTerms location values counted (front ++ other :: back) =
      ev.equateTerms location values counted (front ++ term :: back) := by
  induction front generalizing values counted with
  | nil => rw [List.nil_append, List.nil_append, equateTerms, equateTerms, same]
  | cons head front ih =>
    rw [List.cons_append, List.cons_append, equateTerms, equateTerms]
    split
    · rfl
    · exact ih _ _

theorem constantTerms_congr (same : ∀ isFirst positive,
      ev.constantTerm location isFirst positive other =
        ev.constantTerm location isFirst positive term)
    (front back : List Bytes) (operators : Bytes) (read : List ConstantTerm) :
    ev.constantTerms location read ((front ++ other :: back).zip operators) =
      ev.constantTerms location read ((front ++ term :: back).zip operators) := by
  induction front generalizing operators read with
  | nil =>
    cases operators with
    | nil => rfl
    | cons operator operators =>
      rw [List.nil_append, List.nil_append, List.zip_cons_cons, List.zip_cons_cons, constantTerms,
        constantTerms, same]
  | cons head front ih =>
    cases operators with
    | nil => rfl
    | cons operator operators =>
      rw [List.cons_append, List.cons_append, List.zip_cons_cons, List.zip_cons_cons,
        constantTerms, constantTerms]
      split
      · rfl
      · exact ih _ _

section Means

variable {name first second : Bytes} {value : Nat} (means : ev.symbols.Means name value)
  (replaces : Replaces name (Numeral.digits 10 value) first second)
include means replaces

/-- An equate with the number in the place of the name. -/
theorem equate_replaces (location limit : Int) :
    ev.equate second location limit = ev.equate first location limit := by
  have parts := split_replaces replaces means.word (Numeral.digits_isWord value) limit
  have longer : first ≠ star ∧ second ≠ star := by
    obtain ⟨before, after, _, _⟩ := replaces
    exact ⟨ne_star_around means.word, ne_star_around (Numeral.digits_isWord value)⟩
  unfold equate
  rw [if_neg longer.1, if_neg longer.2]
  rcases parts with ⟨key, left, right⟩ | ⟨front, back, operators, left, right⟩
  · rw [left, right]
  · rw [left, right]
    dsimp only
    rw [equateTerms_congr (equateTerm_digits means location)]

/-- An address constant with the number in the place of the name. -/
theorem constant_replaces (location limit : Int) :
    ev.constant second location limit = ev.constant first location limit := by
  obtain ⟨mark, replaces⟩ := replaces.unmark means.word (Numeral.digits_isWord value)
  have parts := split_replaces replaces means.word (Numeral.digits_isWord value) limit
  have longer : (unmark first).2 ≠ star ∧ (unmark second).2 ≠ star := by
    generalize (unmark first).2 = first at replaces
    generalize (unmark second).2 = second at replaces
    obtain ⟨before, after, _, _⟩ := replaces
    exact ⟨ne_star_around means.word, ne_star_around (Numeral.digits_isWord value)⟩
  unfold constant unmarkedConstant
  rw [if_neg longer.1, if_neg longer.2, mark]
  rcases parts with ⟨key, left, right⟩ | ⟨front, back, operators, left, right⟩
  · rw [left, right]
  · rw [left, right]
    dsimp only
    rw [constantTerms_congr (constantTerm_digits means location)]

omit replaces in
/-- What follows an operator is the term, or no term at all. -/
theorem operandTerm_around {before after : Bytes} (start : before.getLast?.all isOperator = true)
    (finish : after.head?.all isOperator = true)
    (bytes : ∀ b ∈ before ++ after, Bytes.isAlphanumeric b = true ∨ Token.isMark b = true)
    (operator : UInt8) :
    ev.operandTerm operator (before ++ Numeral.digits 10 value ++ after) =
      ev.operandTerm operator (before ++ name ++ after) := by
  by_cases more : before ≠ [] ∨ after ≠ []
  · have refused : ∀ word : Bytes, word.IsWord →
        ev.operandTerm operator (before ++ word ++ after) = .error .expressionRange := by
      intro word isWord
      unfold operandTerm
      rw [(marked_around isWord start finish more bytes).kindOf]
      exact if_neg (ne_star_around isWord)
    rw [refused _ means.word, refused _ (Numeral.digits_isWord value)]
  · rw [not_or, not_not, not_not] at more
    rw [more.1, more.2, List.nil_append, List.nil_append, List.append_nil, List.append_nil]
    exact operandTerm_digits means operator

/-- The expression of an instruction with the number in the place of the name. -/
theorem operand_replaces (kind : Token.kindOf first = .expression) (location : Int) :
    ev.operand second location = ev.operand first location := by
  have marked := Token.marked_of_expression kind
  have isNumber := Numeral.digits_isWord value
  have parts := split_replaces replaces means.word isNumber 1
  obtain ⟨before, after, start, finish⟩ := replaces
  unfold operand
  rw [if_neg (ne_star_around means.word), if_neg (ne_star_around isNumber)]
  rcases parts with ⟨key, left, right⟩ | ⟨front, back, operators, left, right⟩
  · rw [left, right]
  · rw [left, right]
    dsimp only
    cases before with
    | nil =>
      have unstarred : ∀ word : Bytes, word.IsWord → ∃ b rest, word = b :: rest ∧ b ≠ byte '*' := by
        intro word isWord
        obtain ⟨b, rest, rfl⟩ := List.exists_cons_of_ne_nil isWord.nonempty
        have letter := isWord.letters b List.mem_cons_self
        exact ⟨b, rest, rfl, Bytes.ne_of_isAlphanumeric letter rfl⟩
      obtain ⟨b, _, same, plain⟩ := unstarred name means.word
      obtain ⟨c, _, other, bare⟩ := unstarred _ isNumber
      rw [same, other]
      dsimp only [List.nil_append, List.cons_append]
      rw [if_neg plain, if_neg bare]
    | cons b rest =>
      dsimp only [List.cons_append]
      by_cases starred : b = byte '*'
      · rw [if_pos starred, if_pos starred]
        cases rest with
        | nil =>
          subst starred
          cases start
        | cons operator rest =>
          have bytes : ∀ b ∈ rest ++ after,
              Bytes.isAlphanumeric b = true ∨ Token.isMark b = true := by
            intro b member
            apply marked.bytes
            simp only [List.mem_append, List.mem_cons] at member ⊢
            rcases member with early | late
            · exact Or.inl (Or.inl (Or.inr (Or.inr early)))
            · exact Or.inr late
          have start : rest.getLast?.all isOperator = true := by
            cases rest with
            | nil => rfl
            | cons c rest => rwa [List.getLast?_cons_cons, List.getLast?_cons_cons] at start
          dsimp only [List.cons_append, operandAfterStar]
          rw [operandTerm_around means start finish bytes operator]
      · rw [if_neg starred, if_neg starred]

omit replaces in
/-- The name by itself in an equate. -/
theorem equate_name (location : Int) {limit : Int} (lower : 0 ≤ limit) :
    ev.equate name location limit = .ok ⟨value, 0⟩ := by
  obtain ⟨place, found⟩ := means.found
  have term : ∀ isFirst, ev.equateTerm location isFirst name = .ok ⟨value, 0⟩ := by
    intro isFirst
    rw [equateTerm, if_neg means.name_ne_star, found]
    rfl
  have inside : isAddress (reduce [(value : Int)] []) = true :=
    isAddress_iff.2 ⟨Int.natCast_nonneg value, means.small⟩
  rw [equate, if_neg means.name_ne_star, split_word means.word lower]
  simp only [equateTerms, term, List.isEmpty_nil, List.reverse_singleton, inside, ↓reduceIte]
  rfl

omit replaces in
/-- The name by itself as an address constant. -/
theorem constant_name (location : Int) {limit : Int} (lower : 0 ≤ limit) :
    ev.constant name location limit = .ok ⟨value, [], true, false⟩ := by
  obtain ⟨place, found⟩ := means.found
  have unmarked : unmark name = (false, name) := by
    have plain := unmark_word means.word []
    rwa [List.append_nil] at plain
  have term : ∀ isFirst positive, ev.constantTerm location isFirst positive name =
      .ok ⟨value, [], false, true⟩ := by
    intro isFirst positive
    rw [constantTerm, if_neg means.name_ne_star, found]
    rfl
  have inside : (0 : Int) ≤ reduce [(value : Int)] [] ∧
      reduce [(value : Int)] [] ≤ Word.lastAddress := ⟨Int.natCast_nonneg value, means.small⟩
  rw [constant, unmarked, unmarkedConstant, if_neg means.name_ne_star,
    split_word means.word lower]
  simp only [List.zip_cons_cons, List.zip_nil_left, constantTerms, term, List.reverse_singleton,
    constantOf, List.map_cons, List.map_nil, List.any_cons, List.any_nil, Bool.or_self,
    Bool.false_eq_true, ↓reduceIte, inside, and_self, List.all_cons, List.all_nil, Bool.and_self,
    Bool.or_false]
  rfl

end Means

end Expression.Evaluator

/-! ### Equated symbols -/

/-- What is equated without relocatable contributions is an address. -/
theorem Operand.Equates.isAddress_of_absolute {known : Evaluator} {location limit : Int}
    {operand : Operand} {found : Evaluator.Equate}
    (equates : operand.Equates known location limit found) (lower : 0 ≤ operand.value)
    (absolute : found.relocations = 0) : isAddress found.value = true := by
  cases equates with
  | number numeric inside => exact isAddress_iff.2 ⟨lower, inside⟩
  | expression numberless value =>
    rcases Evaluator.equate_value value with ⟨_, rfl⟩ | ⟨_, inside⟩
    · cases absolute
    · exact inside

theorem Assembler.length_of_label? {assembler : Assembler} {source label : Bytes}
    (named : assembler.label? source = some label) : isLabelLength label = true := by
  unfold label? Pass.acceptedLabel at named
  split at named
  · split at named
    · rename_i accepted
      cases named
      exact accepted.2
    · cases named
  · cases named

namespace Reading

variable {assembler : Assembler} {sources : List Bytes} {k : Nat} {name : Bytes} {symbol : Symbol}

/-- A symbol that is equated without relocatable contributions has an address for its value, and a
label of the right length. -/
theorem absolute_of_equated
    (found : (ofLines assembler (sources.take k)).symbols.get? name = some symbol)
    (equated : symbol.usage = .equated) (absolute : symbol.relocations = 0) :
    isAddress symbol.value = true ∧ isLabelLength name = true := by
  induction k with
  | zero => cases found
  | succ k ih =>
    rcases (enters_take assembler sources k).equated_cases found equated with
      old | ⟨named, _, directive, operand, value, said, _, finds, same, count⟩
    · exact ih old
    · refine ⟨?_, Assembler.length_of_label? named⟩
      obtain ⟨_, rfl⟩ := Assembler.directive?_eq_some said
      rw [same]
      exact finds.isAddress_of_absolute (Operand.ofToken_next_nonneg _) (count.symm.trans absolute)

/-- A symbol that is equated without relocatable contributions stands for its value. -/
theorem means_of_equated
    (found : (ofLines assembler (sources.take k)).symbols.get? name = some symbol)
    (equated : symbol.usage = .equated) (absolute : symbol.relocations = 0) :
    ∃ value : Nat, symbol.value = value ∧
      (ofLines assembler (sources.take k)).symbols.Means name value := by
  obtain ⟨inside, length⟩ := absolute_of_equated found equated absolute
  obtain ⟨lower, upper⟩ := isAddress_iff.1 inside
  have named : (ofLines assembler (sources.take k)).symbols.Named := (ofLines_recordable _).labels
  have label : symbol.label = name := Symbol.Table.label_of_get? found
  obtain ⟨value, same⟩ := Int.eq_ofNat_of_zero_le lower
  refine ⟨value, same, ⟨symbol.location, ?_⟩, ?_, same ▸ upper, named.spelled found, length⟩
  · rw [found, ← label, ← equated, ← absolute, ← same]
  · exact named.digits_absent value

end Reading

end WordAssembler

import WordAssembler.Source.Operand

/-!
Values of operands. Whatever stands in the operand column, the value read from it is not negative.
-/

set_option autoImplicit false

namespace WordAssembler

/-- A token other than a comment has the kind that its text looks like. -/
theorem Token.next_kind {line : Bytes} (text : (Token.next line).1.kind ≠ .comment) :
    (Token.next line).1.kind = Token.kindOf (Token.next line).1.text := by
  unfold Token.next at text ⊢
  cases start : line.dropGap with
  | nil => rfl
  | cons b rest =>
    rw [start] at text
    simp only [Token.first] at text ⊢
    split
    · rename_i colon
      simp [colon] at text
    · rfl

theorem Token.head_of_comment {text : Bytes} (comment : Token.kindOf text = .comment) :
    text.head? = some (byte ':') := by
  unfold Token.kindOf at comment
  split at comment
  · cases comment
  · split at comment
    · assumption
    · repeat' split at comment
      all_goals cases comment

/-- The first item stays if it is not to be dropped. -/
theorem head?_dropTrailing {α : Type} {test : α → Bool} {first : α} (kept : test first = false)
    (rest : List α) : (dropTrailing test (first :: rest)).head? = some first := by
  have last : [first].dropWhile test = [first] := by simp [kept]
  rw [dropTrailing, List.reverse_cons, List.dropWhile_append, last]
  split
  · rfl
  · rw [List.reverse_append]
    rfl

/-- A comment starts with a colon. -/
theorem Token.head_of_next_comment {line : Bytes} (comment : (Token.next line).1.kind = .comment) :
    (Token.next line).1.text.head? = some (byte ':') := by
  unfold Token.next at comment ⊢
  cases start : line.dropGap with
  | nil =>
    rw [start] at comment
    cases comment
  | cons b rest =>
    rw [start] at comment
    simp only [Token.first] at comment ⊢
    split
    · rename_i colon
      subst colon
      exact head?_dropTrailing rfl rest
    · rename_i other
      rw [if_neg other] at comment
      exact Token.head_of_comment comment

theorem Token.text_of_empty {line : Bytes} (empty : (Token.next line).1.kind = .empty) :
    (Token.next line).1.text = [] := by
  have kind := @Token.next_kind line (by simp [empty])
  rw [empty] at kind
  unfold Token.kindOf at kind
  split at kind
  · rename_i isEmpty
    simpa using isEmpty
  · repeat' split at kind
    all_goals cases kind

theorem Token.digits_of_kindOf {text : Bytes} (number : Token.kindOf text = .number) :
    text.all Bytes.isDigit = true := by
  unfold Token.kindOf at number
  split at number <;> try cases number
  split at number <;> try cases number
  split at number <;> try cases number
  split at number
  · assumption
  · split at number <;> try cases number
    split at number <;> cases number

namespace Numeral

/-- A numeral without a sign is that of a natural number. -/
theorem readInteger?_of_digits {text : Bytes} {value : Int} (digits : text.all Bytes.isDigit = true)
    (read : readInteger? text = some value) :
    ∃ n : Nat, read? 10 text = some n ∧ value = n := by
  unfold readInteger? at read
  cases text with
  | nil => simp at read
  | cons b rest =>
    have first : Bytes.isDigit b = true := by
      simp only [List.all_cons, Bool.and_eq_true] at digits
      exact digits.1
    have notMinus : b ≠ byte '-' := by
      rintro rfl
      revert first
      decide
    have notPlus : b ≠ byte '+' := by
      rintro rfl
      revert first
      decide
    simp only [notMinus, notPlus, ↓reduceIte, Option.filter_eq_some_iff,
      Option.map_eq_some_iff] at read
    obtain ⟨⟨n, numeral, rfl⟩, _⟩ := read
    exact ⟨n, numeral, rfl⟩

end Numeral

namespace Operand

theorem hexValue?_nonneg {body : Bytes} {value : Int} (read : hexValue? body = some value) :
    0 ≤ value := by
  unfold hexValue? at read
  split at read
  · split at read
    · rename_i bounds
      cases read
      exact bounds.1
    · cases read
  · cases read

theorem binaryValue?_nonneg {body : Bytes} {value : Int} (read : binaryValue? body = some value) :
    0 ≤ value := by
  unfold binaryValue? Word.parseBinary at read
  split at read
  · rename_i found parsed
    split at parsed
    · cases parsed
      split at read
      · cases read
        exact Int.natCast_nonneg _
      · cases read
    · cases parsed
  · cases read

theorem integerValue?_nonneg {body : Bytes} {value : Int} (read : integerValue? body = some value) :
    0 ≤ value := by
  unfold integerValue? at read
  split at read
  · rename_i number _
    split at read
    · rename_i bounds
      have lowest : -32768 ≤ number := by
        have inRange := bounds.1
        simp only [Word.inRange, Bool.and_eq_true, decide_eq_true_eq] at inRange
        exact inRange.1.2
      cases read
      split
      · rename_i negative
        have half : ((Numeral.powerOfTwo ((Word.bits : Int).toNat - 1) : Nat) : Int) = 32768 := rfl
        have width : Word.isWidth Word.bits = true := by decide
        simp only [Word.convert, width, ↓reduceIte, half]
        split
        · omega
        · split <;> omega
      · omega
    · cases read
  · cases read

theorem charValue?_nonneg {body : Bytes} {value : Int} (read : charValue? body = some value) :
    0 ≤ value := by
  unfold charValue? at read
  split at read
  · split at read <;> cases read
    exact Int.natCast_nonneg _
  · split at read <;> cases read
    exact Int.natCast_nonneg _
  · cases read

theorem literalOf_nonneg (text : Bytes) : 0 ≤ (literalOf text).2 := by
  unfold literalOf
  split
  · rename_i letter sign body
    cases read : literal? letter body with
    | none => simp
    | some found =>
      obtain ⟨kind, value⟩ := found
      simp only [Option.getD_some]
      unfold literal? at read
      split at read
      · obtain ⟨n, hex, same⟩ := Option.map_eq_some_iff.1 read
        cases same
        exact hexValue?_nonneg hex
      · split at read
        · obtain ⟨n, binary, same⟩ := Option.map_eq_some_iff.1 read
          cases same
          exact binaryValue?_nonneg binary
        · split at read
          · obtain ⟨n, integer, same⟩ := Option.map_eq_some_iff.1 read
            cases same
            exact integerValue?_nonneg integer
          · split at read
            · obtain ⟨n, char, same⟩ := Option.map_eq_some_iff.1 read
              cases same
              exact charValue?_nonneg char
            · cases read
  · simp

theorem numberOf_nonneg {text : Bytes} (digits : text.all Bytes.isDigit = true) :
    0 ≤ (numberOf text).2 := by
  unfold numberOf
  split
  · rename_i value read
    obtain ⟨n, _, rfl⟩ := Numeral.readInteger?_of_digits digits read
    split <;> simp
  · simp

/-- A literal is of one of the four forms, or malformed. -/
theorem literalOf_kind (text : Bytes) :
    (literalOf text).1.isLiteral = true ∨ (literalOf text).1 = .malformed := by
  unfold literalOf
  split
  · rename_i letter sign body
    cases read : literal? letter body with
    | none => exact Or.inr rfl
    | some found =>
      unfold literal? at read
      repeat' split at read
      all_goals
        first
        | cases read
        | (obtain ⟨value, _, rfl⟩ := Option.map_eq_some_iff.1 read
           exact Or.inl rfl)
  · exact Or.inr rfl

theorem numberOf_kind (text : Bytes) :
    (numberOf text).1 = .number ∨ (numberOf text).1 = .malformed := by
  unfold numberOf
  repeat' split
  all_goals simp

/-- A symbol is a token that looks like a name. -/
theorem label_of_symbol {token : Token} (symbol : (ofToken token).kind = .symbol) :
    token.kind = .label ∧ ofToken token = ⟨token.text, .symbol, 0⟩ := by
  unfold ofToken at symbol ⊢
  split at symbol
  · cases symbol
  · cases symbol
  · rename_i label
    simp [label]
  · cases symbol
  · rcases numberOf_kind token.text with number | malformed
    · rw [number] at symbol
      cases symbol
    · rw [malformed] at symbol
      cases symbol
  · rcases literalOf_kind token.text with literal | malformed
    · dsimp only at symbol
      rw [symbol] at literal
      cases literal
    · rw [malformed] at symbol
      cases symbol
  · cases symbol

theorem kindOf_of_symbol {line : Bytes} (symbol : (ofToken (Token.next line).1).kind = .symbol) :
    Token.kindOf (ofToken (Token.next line).1).text = .label := by
  obtain ⟨label, read⟩ := label_of_symbol symbol
  rw [read, ← Token.next_kind (by simp [label]), label]

/-- The operand read from a line has a value that is not negative. -/
theorem ofToken_next_nonneg (line : Bytes) : 0 ≤ (ofToken (Token.next line).1).value := by
  unfold ofToken
  split
  · exact Int.le_refl 0
  · exact Int.le_refl 0
  · exact Int.le_refl 0
  · exact Int.le_refl 0
  · rename_i number
    have kind := @Token.next_kind line (by simp [number])
    exact numberOf_nonneg (Token.digits_of_kindOf (kind.symm.trans number))
  · exact literalOf_nonneg _
  · exact Int.le_refl 0

end Operand

end WordAssembler

import WordAssembler.Proofs.Clean

/-!
A comment after a text. It is no token but a comment, so the tokens of the text stay what they are,
and where the text has no more of them the comment stands in their place. The columns of a source
line follow from its tokens.
-/

set_option autoImplicit false

namespace WordAssembler

/-- The second text is the first, or the first with a comment after it. The blank before the comment
may be gone where the first text has come to an end. -/
inductive Commented (text : Bytes) : Bytes → Prop
  | same : Commented text text
  | bare (comment : Bytes) (ended : text = []) : Commented text (byte ':' :: comment)
  | after (gap : UInt8) (comment : Bytes) (blank : Bytes.isGap gap = true) :
      Commented text (text ++ gap :: byte ':' :: comment)

/-! ### Tokens -/

/-- A token that says nothing: there was none, or a comment. -/
def Token.isVoid (token : Token) : Prop := token.kind = .empty ∨ token.kind = .comment

theorem Token.isSeparator_of_isGap {b : UInt8} (gap : Bytes.isGap b = true) :
    Token.isSeparator b = true := by
  simp only [Bytes.isGap, Bool.or_eq_true] at gap
  rcases gap with space | tab
  · simp [Token.isSeparator, space]
  · simp [Token.isSeparator, tab]

section Runs

variable {α : Type} (test : α → Bool) {stop : α} (stops : test stop = false) (items more : List α)
include stops

theorem takeWhile_append_stop :
    (items ++ stop :: more).takeWhile test = items.takeWhile test := by
  induction items with
  | nil => simp [stops]
  | cons item rest ih =>
    rw [List.cons_append, List.takeWhile_cons, List.takeWhile_cons, ih]

theorem dropWhile_append_stop :
    (items ++ stop :: more).dropWhile test = items.dropWhile test ++ stop :: more := by
  induction items with
  | nil => simp [stops]
  | cons item rest ih =>
    rw [List.cons_append, List.dropWhile_cons, List.dropWhile_cons, ih]
    split <;> rfl

end Runs

/-- A list starts with a run of items that satisfy a test, up to one that does not. -/
theorem exists_run {α : Type} (test : α → Bool) (items : List α) : ∃ run rest,
    items = run ++ rest ∧ (∀ item ∈ run, test item = true) ∧
      rest.head?.all (!test ·) = true := by
  induction items with
  | nil => exact ⟨[], [], rfl, nofun, rfl⟩
  | cons first items ih =>
    by_cases inside : test first = true
    · obtain ⟨run, rest, rfl, passes, stops⟩ := ih
      exact ⟨first :: run, rest, rfl, List.forall_mem_cons.2 ⟨inside, passes⟩, stops⟩
    · exact ⟨[], first :: items, rfl, nofun, by simpa using inside⟩

theorem dropTrailing_append_stop {α : Type} {test : α → Bool} {stop : α}
    (stops : test stop = false) (items more : List α) :
    dropTrailing test (items ++ stop :: more) = items ++ stop :: dropTrailing test more := by
  have reversed : (items ++ stop :: more).reverse =
      more.reverse ++ stop :: items.reverse := by simp
  rw [dropTrailing, reversed, dropWhile_append_stop test stops]
  simp [dropTrailing]

theorem dropTrailing_concat {α : Type} {test : α → Bool} {last : α} (dropped : test last = true)
    (items : List α) : dropTrailing test (items ++ [last]) = dropTrailing test items := by
  rw [dropTrailing, dropTrailing, List.reverse_append, List.reverse_singleton,
    List.singleton_append, List.dropWhile_cons_of_pos dropped]

/-- A separator after a word, and what follows it, leave the word alone. Both stand after the rest,
or there was none and the separator is that of the word. -/
theorem Token.next_append {text rest : Bytes} {b stop : UInt8} (start : text.dropGap = b :: rest)
    (word : b ≠ byte ':') (separator : isSeparator stop = true) (tail : Bytes) :
    (next (text ++ stop :: tail)).1 = (next text).1 ∧
      ((next text).2 = [] ∧ (next (text ++ stop :: tail)).2 = tail ∨
        (next (text ++ stop :: tail)).2 = (next text).2 ++ stop :: tail) := by
  have stops : (!isSeparator stop) = false := by
    rw [separator]
    rfl
  have gap : (text ++ stop :: tail).dropGap = b :: (rest ++ stop :: tail) := by
    have kept : text.dropWhile Bytes.isGap = b :: rest := start
    rw [Bytes.dropGap, List.dropWhile_append, kept]
    rfl
  unfold next
  rw [gap, start]
  simp only [first, if_neg word]
  rw [← List.cons_append, takeWhile_append_stop (!isSeparator ·) stops,
    dropWhile_append_stop (!isSeparator ·) stops]
  refine ⟨rfl, ?_⟩
  cases (b :: rest).dropWhile (!isSeparator ·) with
  | nil => exact Or.inl ⟨rfl, rfl⟩
  | cons other later => exact Or.inr rfl

/-- A comment starts at the first byte that is no blank. -/
theorem Bytes.dropGap_after (text : Bytes) {gap : UInt8} (blank : Bytes.isGap gap = true)
    (comment : Bytes) :
    (text ++ gap :: byte ':' :: comment).dropGap =
      if text.dropGap = [] then byte ':' :: comment
      else text.dropGap ++ gap :: byte ':' :: comment := by
  have whole : (gap :: byte ':' :: comment).dropWhile Bytes.isGap = byte ':' :: comment := by
    rw [List.dropWhile_cons_of_pos blank, List.dropWhile_cons_of_neg (by decide)]
  rw [Bytes.dropGap, Bytes.dropGap, List.dropWhile_append, whole]
  simp only [List.isEmpty_iff]

namespace Commented

variable {text annotated : Bytes}

/-- A comment after a text leaves its first token alone and stands after the rest, or it stands in
place of a token. -/
theorem next (commented : Commented text annotated) :
    (Token.next annotated).1 = (Token.next text).1 ∧
        Commented (Token.next text).2 (Token.next annotated).2 ∨
      (Token.next text).1.isVoid ∧ (Token.next annotated).1.kind = .comment ∧
        (Token.next text).2 = [] ∧ (Token.next annotated).2 = [] := by
  cases commented with
  | same => exact Or.inl ⟨rfl, .same⟩
  | bare comment ended =>
    subst ended
    exact Or.inr ⟨Or.inl rfl, rfl, rfl, rfl⟩
  | after gap comment blank =>
    cases start : text.dropGap with
    | nil =>
      unfold Token.next
      rw [Bytes.dropGap_after _ blank, start]
      exact Or.inr ⟨Or.inl rfl, rfl, rfl, rfl⟩
    | cons b rest =>
      by_cases colon : b = byte ':'
      · unfold Token.next
        rw [Bytes.dropGap_after _ blank, start, if_neg (List.cons_ne_nil _ _), colon]
        exact Or.inr ⟨Or.inr rfl, rfl, rfl, rfl⟩
      · obtain ⟨token, after⟩ :=
          Token.next_append start colon (Token.isSeparator_of_isGap blank) (byte ':' :: comment)
        refine Or.inl ⟨token, ?_⟩
        rcases after with ⟨none, later⟩ | later
        · rw [none, later]
          exact .bare comment rfl
        · rw [later]
          exact .after gap comment blank

theorem startsLabel (commented : Commented text annotated) :
    startsLabel annotated = startsLabel text := by
  cases commented with
  | same => rfl
  | bare comment ended =>
    subst ended
    rfl
  | after gap comment blank =>
    cases text with
    | nil => simp [WordAssembler.startsLabel, blank]
    | cons b rest => rfl

theorem isBlank (commented : Commented text annotated) :
    Line.isBlank annotated = Line.isBlank text := by
  cases commented with
  | same => rfl
  | bare comment ended =>
    subst ended
    rfl
  | after gap comment blank =>
    unfold Line.isBlank
    rw [Bytes.dropGap_after _ blank]
    cases text.dropGap with
    | nil => rfl
    | cons b rest => rfl

end Commented

/-- A source line as it is read, without the carriage returns at its end. -/
def Line.trimmed (line : Bytes) : Bytes := dropTrailing Lines.isCarriageReturn line

/-- A comment after a line without its carriage returns. -/
theorem Line.commented_trimmed (line : Bytes) {gap : UInt8} (blank : Bytes.isGap gap = true)
    (comment : Bytes) :
    Commented (trimmed line) (trimmed (trimmed line ++ gap :: byte ':' :: comment)) := by
  have kept : trimmed (trimmed line ++ gap :: byte ':' :: comment) =
      trimmed line ++ gap :: byte ':' :: trimmed comment := by
    rw [List.append_cons, List.append_cons (trimmed line) gap (byte ':' :: trimmed comment)]
    exact dropTrailing_append_stop (by decide) _ _
  rw [kept]
  exact .after gap _ blank

/-- A label column starts with no blank and no comment. -/
theorem start_of_startsLabel {source : Bytes} (starts : startsLabel source = true) :
    ∃ b rest, source.dropGap = b :: rest ∧ b ≠ byte ':' := by
  cases source with
  | nil => cases starts
  | cons b rest =>
    simp only [startsLabel, Bool.not_eq_true', Bool.or_eq_false_iff, beq_eq_false_iff_ne] at starts
    refine ⟨b, rest, ?_, starts.2⟩
    rw [Bytes.dropGap, List.dropWhile_cons_of_neg (by simp [starts.1])]

theorem startsLabel_append {source : Bytes} (filled : source.dropGap ≠ []) (more : Bytes) :
    startsLabel (source ++ more) = startsLabel source := by
  cases source with
  | nil => exact absurd rfl filled
  | cons b rest => rfl

/-- A token that is neither missing nor a comment starts with no blank and no comment. -/
theorem Token.start_of_next {text : Bytes} (filled : (next text).1.kind ≠ .empty)
    (uncommented : (next text).1.kind ≠ .comment) :
    ∃ b rest, text.dropGap = b :: rest ∧ b ≠ byte ':' := by
  unfold next at filled uncommented
  cases start : text.dropGap with
  | nil =>
    rw [start] at filled
    exact absurd rfl filled
  | cons b rest =>
    refine ⟨b, rest, rfl, ?_⟩
    rintro rfl
    rw [start] at uncommented
    exact uncommented rfl

/-- What stands in the label column is no comment. -/
theorem Token.kind_of_startsLabel {source : Bytes} (starts : startsLabel source = true) :
    (Token.next source).1.kind ≠ .comment := by
  intro comment
  obtain ⟨b, rest, start, word⟩ := start_of_startsLabel starts
  have text : (Token.next source).1.text = (b :: rest).takeWhile (!isSeparator ·) := by
    rw [Token.next, start]
    simp only [Token.first, if_neg word]
  have colon := Token.head_of_next_comment comment
  rw [text, List.takeWhile_cons] at colon
  split at colon
  · exact word (Option.some.inj colon)
  · cases colon

/-! ### Columns -/

/-- The columns of a line and of the same line with a comment after it. -/
structure Columns.Commented (columns annotated : Columns) : Prop where
  label : annotated.label = columns.label
  command : annotated.command = columns.command ∧
      WordAssembler.Commented columns.rest annotated.rest ∨
    columns.command.isVoid ∧ annotated.command.kind = .comment

theorem Commented.columns {source annotated : Bytes} (commented : Commented source annotated)
    (assembler : Assembler) :
    (assembler.columns source).Commented (assembler.columns annotated) := by
  have starts := commented.startsLabel
  unfold Assembler.columns
  dsimp only
  rw [starts]
  rcases commented.next with ⟨token, rest⟩ | ⟨void, comment, _, _⟩
  · rw [token]
    split
    · refine ⟨rfl, ?_⟩
      rcases rest.next with same | ⟨void, comment, _, _⟩
      · exact Or.inl same
      · exact Or.inr ⟨void, comment⟩
    · exact ⟨rfl, Or.inl ⟨rfl, rest⟩⟩
  · have unlabelled : WordAssembler.startsLabel source = false := by
      cases labelled : WordAssembler.startsLabel source with
      | false => rfl
      | true =>
        rw [labelled] at starts
        exact absurd comment (Token.kind_of_startsLabel starts)
    rw [unlabelled]
    exact ⟨rfl, Or.inr ⟨void, comment⟩⟩

/-- What follows a command and its separator changes neither the label column nor the command. -/
theorem Assembler.columns_append {assembler : Assembler} {lead : Bytes} {stop : UInt8}
    (separator : Token.isSeparator stop = true)
    (filled : (assembler.columns lead).command.kind ≠ .empty)
    (uncommented : (assembler.columns lead).command.kind ≠ .comment) (tail : Bytes) :
    (assembler.columns (lead ++ stop :: tail)).label = (assembler.columns lead).label ∧
      (assembler.columns (lead ++ stop :: tail)).command = (assembler.columns lead).command := by
  cases starts : startsLabel lead with
  | false =>
    simp only [columns, starts, Bool.false_and, Bool.false_eq_true, ↓reduceIte]
      at filled uncommented
    obtain ⟨b, rest, start, word⟩ := Token.start_of_next filled uncommented
    have token := (Token.next_append start word separator tail).1
    have other := startsLabel_append (start ▸ List.cons_ne_nil b rest) (stop :: tail)
    simp [columns, starts, other, token]
  | true =>
    obtain ⟨b, rest, start, word⟩ := start_of_startsLabel starts
    obtain ⟨token, after⟩ := Token.next_append start word separator tail
    have other := startsLabel_append (start ▸ List.cons_ne_nil b rest) (stop :: tail)
    cases reserved : assembler.isReserved (Token.next lead).1.text with
    | true => simp [columns, starts, other, token, reserved]
    | false =>
      -- The command is the second token, so something follows the label.
      simp only [columns, starts, reserved, Bool.not_false, Bool.and_self, ↓reduceIte]
        at filled uncommented
      rcases after with ⟨none, _⟩ | later
      · rw [none] at filled
        exact absurd rfl filled
      · obtain ⟨c, more, next, command⟩ := Token.start_of_next filled uncommented
        have second := (Token.next_append next command separator tail).1
        simp [columns, starts, other, token, reserved, later, second]

/-- A comment does not make a line START. -/
theorem Commented.isStart {source annotated : Bytes} (commented : Commented source annotated)
    {assembler : Assembler} (isStart : assembler.isStart source = true) :
    assembler.isStart annotated = true := by
  obtain ⟨filled, uncommented⟩ := Assembler.kind_of_isStart isStart
  rcases (commented.columns assembler).command with ⟨command, _⟩ | ⟨void, _⟩
  · rwa [Assembler.isStart, command]
  · rcases void with empty | comment
    · exact absurd empty filled
    · exact absurd comment uncommented

end WordAssembler

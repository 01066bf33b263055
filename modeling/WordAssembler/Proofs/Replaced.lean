import WordAssembler.Proofs.Swaps

/-!
Lines with a name and lines with its number on the first pass. Two passes that differ only in the
statements of their lines do the same with labels and locations. If one line names a symbol where
the other has its number, the lines that are read have the same word and the same diagnostics, and
their statements are again the same but for the name.
-/

set_option autoImplicit false

namespace WordAssembler

open Expression

namespace Pass

/-! ### Statements and other changes -/

section

variable (p : Pass) (assembler : Assembler) (statement : Statement)

theorem note_setStatement (entry : Bytes) :
    (p.note assembler entry).setStatement statement =
      (p.setStatement statement).note assembler entry := by
  unfold note
  split <;> rfl

theorem report_setStatement (key : Key) :
    (p.report assembler key).setStatement statement =
      (p.setStatement statement).report assembler key := by
  unfold report
  dsimp only
  rw [note_setStatement]
  rfl

theorem defineLabel_setStatement (label : Bytes) (location : Int) :
    (p.defineLabel assembler label location).setStatement statement =
      (p.setStatement statement).defineLabel assembler label location := by
  have symbols : (p.setStatement statement).symbols = p.symbols := rfl
  unfold defineLabel
  rw [symbols]
  split
  · rfl
  · split
    · rfl
    · exact report_setStatement p assembler statement _

theorem defineOwnLabel_setStatement :
    (p.defineOwnLabel assembler).setStatement statement =
      (p.setStatement statement).defineOwnLabel assembler := by
  have label : (p.setStatement statement).line.label = p.line.label := rfl
  unfold defineOwnLabel
  rw [label]
  split
  · exact defineLabel_setStatement p assembler statement _ _
  · rfl

end

/-! ### Passes that differ in their statement -/

variable {p q : Pass} (assembler : Assembler)

/-- Two passes that are alike but for the statements of their lines. -/
structure Restated (p q : Pass) : Prop where
  same : Alike (p.setStatement .invalidated) (q.setStatement .invalidated)

theorem Alike.restated (alike : Alike p q) : Restated p q := ⟨alike.setStatement _⟩

namespace Restated

variable (restated : Restated p q)
include restated

theorem context : q.context.uncounted = p.context.uncounted := restated.same.context

theorem symbols : q.symbols = p.symbols := restated.same.symbols

theorem location : q.context.location = p.context.location := restated.same.location

theorem evaluator : q.evaluator = p.evaluator := restated.same.evaluator

theorem label : q.line.label = p.line.label := restated.same.label

theorem fatal : q.fatal.isSome = p.fatal.isSome := restated.same.fatal

theorem unstated : q.line.unstated = p.line.unstated :=
  (congrArg (fun line : Line => { line with statement := none }) restated.same.line :)

/-- Any statements. -/
theorem setStatement (first second : Statement) :
    Restated (p.setStatement first) (q.setStatement second) := ⟨restated.same⟩

/-- The same statement. -/
theorem alike (statement : Statement) :
    Alike (p.setStatement statement) (q.setStatement statement) :=
  restated.same.setStatement statement

theorem setWord (word : Word) : Restated (p.setWord word) (q.setWord word) :=
  ⟨restated.same.setWord word⟩

theorem setComment (comment : Option Bytes) :
    Restated (p.setComment comment) (q.setComment comment) :=
  ⟨restated.same.setComment comment comment⟩

theorem withSymbols (symbols : Symbol.Table) :
    Restated { p with symbols := symbols } { q with symbols := symbols } :=
  ⟨restated.same.withSymbols symbols⟩

theorem occupy : Restated p.occupy q.occupy := ⟨restated.same.occupy⟩

theorem moveTo (target : Int) :
    Restated { p with
        context := { p.context with location := target }
        line := { p.line with location := target } }
      { q with
        context := { q.context with location := target }
        line := { q.line with location := target } } :=
  ⟨restated.same.moveTo target⟩

/-- A statement that is given up does not count. -/
theorem invalidate : Alike p.invalidate q.invalidate := restated.same.invalidate

theorem note (first second : Bytes) :
    Restated (p.note assembler first) (q.note assembler second) := by
  constructor
  rw [note_setStatement, note_setStatement]
  exact restated.same.note assembler first second

theorem note_left (entry : Bytes) : Restated (p.note assembler entry) q := by
  obtain ⟨context, symbols, line, fatal, mark⟩ := restated.same
  constructor
  rw [note_setStatement]
  unfold Pass.note
  split
  · exact ⟨context, symbols, line, fatal, mark⟩
  · exact restated.same

theorem report (key : Key) : Restated (p.report assembler key) (q.report assembler key) := by
  constructor
  rw [report_setStatement, report_setStatement]
  exact restated.same.report assembler key

theorem fail (key : Key) : Alike (p.fail assembler key) (q.fail assembler key) :=
  (restated.report assembler key).invalidate

theorem defineLabel (label : Bytes) (location : Int) :
    Restated (p.defineLabel assembler label location)
      (q.defineLabel assembler label location) := by
  constructor
  rw [defineLabel_setStatement, defineLabel_setStatement]
  exact restated.same.defineLabel assembler label location

theorem defineOwnLabel :
    Restated (p.defineOwnLabel assembler) (q.defineOwnLabel assembler) := by
  constructor
  rw [defineOwnLabel_setStatement, defineOwnLabel_setStatement]
  exact restated.same.defineOwnLabel assembler

end Restated

/-! ### Passes of which one has the number in the place of the name -/

/-- Two passes that are alike, but that the second may have the number in the place of the name. -/
structure Swaps (name : Bytes) (value : Nat) (p q : Pass) : Prop where
  restated : Restated p q
  line : p.line.Swaps name value q.line

variable {name : Bytes} {value : Nat}

theorem Alike.swaps (alike : Alike p q) : Swaps name value p q :=
  ⟨alike.restated, Line.swaps_of_bare alike.line⟩

/-- Passes with statements that are swapped. -/
theorem Restated.swaps (restated : Restated p q) {first second : Statement}
    (swaps : first.Swaps name value second) (said : p.line.statement = some first)
    (again : q.line.statement = some second)
    (linking : ∀ program, Emission.resetLinking? program q.line =
      Emission.resetLinking? program p.line) : Swaps name value p q :=
  ⟨restated, restated.unstated, Or.inr ⟨first, second, swaps, said, again⟩, linking⟩

namespace Swaps

variable (swaps : Swaps name value p q)
include swaps

theorem report (key : Key) :
    Swaps name value (p.report assembler key) (q.report assembler key) := by
  refine ⟨swaps.restated.report assembler key, ?_⟩
  rw [report_line, report_line]
  exact swaps.line.remark _

theorem note (first second : Bytes) :
    Swaps name value (p.note assembler first) (q.note assembler second) := by
  refine ⟨swaps.restated.note assembler first second, ?_⟩
  rw [note_line, note_line]
  exact swaps.line

theorem readTrailing (rest : Bytes) :
    Swaps name value (p.readTrailing assembler rest) (q.readTrailing assembler rest) := by
  unfold Pass.readTrailing
  dsimp only
  split
  · exact swaps
  · exact ⟨swaps.restated.setComment _, swaps.line.unstated, swaps.line.statement,
      swaps.line.linking⟩
  · exact swaps.report assembler _

/-- The rest of the line is read alike. -/
theorem finishLine (rest : Bytes) :
    Swaps name value (p.finishLine assembler rest) (q.finishLine assembler rest) := by
  have trailing := swaps.readTrailing assembler rest
  have serious : (q.readTrailing assembler rest).line.has .serious =
      (p.readTrailing assembler rest).line.has .serious := by
    unfold Line.has
    rw [trailing.line.diagnostics]
  unfold Pass.finishLine
  rw [swaps.restated.fatal]
  split
  · exact swaps
  · dsimp only
    rw [trailing.line.addressed, serious, trailing.line.isInvalidated]
    split
    · exact trailing.restated.invalidate.swaps
    · exact trailing

end Swaps

/-! ### Directives -/

section Directives

variable (restated : Restated p q) (means : p.symbols.Means name value) {directive : Directive}
include restated means

omit means in
/-- A symbol is equated to the same value. -/
theorem Restated.equate (equates : directive = .equ ∨ directive = .eque) (label : Bytes)
    (operand other : Operand) (found : Evaluator.Equate) :
    Swaps name value (p.equate label directive operand found)
      (q.equate label directive other found) := by
  have stated := restated.setStatement (.directive directive { operand with value := found.value })
    (.directive directive { other with value := found.value })
  unfold Pass.equate
  dsimp only
  rw [stated.symbols, stated.location]
  refine (stated.withSymbols _).swaps (.done (equates.imp_right Or.inl) _ _) rfl rfl ?_
  intro program
  rcases equates with rfl | rfl <;> rfl

/-- EQU and EQUE with the number in the place of the name. -/
theorem Restated.applyEquate (equates : directive = .equ ∨ directive = .eque)
    {operand other : Operand} (operands : operand.Swaps name value other) :
    Swaps name value
      ((p.setStatement (.directive directive operand)).applyEquate assembler directive operand)
      ((q.setStatement (.directive directive other)).applyEquate assembler directive other) := by
  have stated := restated.setStatement (.directive directive operand) (.directive directive other)
  have swaps : Swaps name value (p.setStatement (.directive directive operand))
      (q.setStatement (.directive directive other)) := by
    refine stated.swaps (.done (equates.imp_right Or.inl) operand other) rfl rfl ?_
    intro program
    rcases equates with rfl | rfl <;> rfl
  have known : (p.setStatement (.directive directive operand)).evaluator.symbols.Means name value :=
    means
  generalize p.setStatement (.directive directive operand) = p at stated swaps known ⊢
  generalize q.setStatement (.directive directive other) = q at stated swaps ⊢
  unfold Pass.applyEquate
  rw [stated.label, stated.symbols, stated.evaluator, stated.location]
  split
  · exact swaps.report assembler _
  · split
    · exact swaps.report assembler _
    · cases operands with
      | whole =>
        have limit : (0 : Int) ≤ directive.operatorLimit := by
          rcases equates with rfl | rfl <;> decide
        have small : (value : Int) ≤ Word.lastAddress := known.small
        have found := Evaluator.equate_name known p.context.location limit
        dsimp only
        rw [if_neg (by decide), if_pos (by decide), if_pos small, found]
        exact (stated.note_left assembler _).equate equates _ _ _ _
      | term kind replaces =>
        have same := Evaluator.equate_replaces known replaces p.context.location
          directive.operatorLimit
        dsimp only
        rw [if_neg (by decide), if_neg (by decide), same]
        split
        · exact (stated.note assembler _ _).equate equates _ _ _ _
        · exact (swaps.note assembler _ _).report assembler _

omit restated in
/-- The address that RESET moves to by the name. -/
theorem resetTarget?_name : p.resetTarget? ⟨name, .symbol, 0⟩ = some (value : Int) := by
  obtain ⟨location, found⟩ := means.found
  have inside : isAddress value = true := isAddress_iff.2 ⟨Int.natCast_nonneg value, means.small⟩
  simp [resetTarget?, Operand.Kind.isNumeric, Operand.Kind.isLiteral, found, inside]

omit restated in
/-- The address that RESET moves to by the number. -/
theorem resetTarget?_digits (q : Pass) :
    q.resetTarget? ⟨Numeral.digits 10 value, .number, value⟩ = some (value : Int) := by
  have inside : isAddress value = true := isAddress_iff.2 ⟨Int.natCast_nonneg value, means.small⟩
  simp [resetTarget?, Operand.Kind.isNumeric, inside]

omit means in
/-- RESET to the same address by any operands. -/
theorem Restated.applyReset {operand other : Operand} {target : Int}
    (here : p.resetTarget? operand = some target) (there : q.resetTarget? other = some target) :
    Swaps name value ((p.setStatement (.directive .reset operand)).applyReset assembler operand)
      ((q.setStatement (.directive .reset other)).applyReset assembler other) := by
  have stated := restated.setStatement (.directive .reset operand) (.directive .reset other)
  have said : (p.setStatement (.directive .reset operand)).line.statement =
    some (.directive .reset operand) := rfl
  have again : (q.setStatement (.directive .reset other)).line.statement =
    some (.directive .reset other) := rfl
  have here : (p.setStatement (.directive .reset operand)).resetTarget? operand = some target :=
    here
  have there : (q.setStatement (.directive .reset other)).resetTarget? other = some target := there
  generalize p.setStatement (.directive .reset operand) = p at stated said here ⊢
  generalize q.setStatement (.directive .reset other) = q at stated again there ⊢
  -- A RESET that is refused has no linking record, whatever its operand.
  have refused : ∀ key, Swaps name value (p.report assembler key) (q.report assembler key) := by
    intro key
    refine (stated.report assembler key).swaps
      (.done (Or.inr (Or.inr rfl)) operand other) ?_ ?_ fun program => ?_
    · rw [report_line, said]
    · rw [report_line, again]
    · rw [report_line, report_line, Emission.resetLinking?_of_diagnostics (by simp),
        Emission.resetLinking?_of_diagnostics (by simp)]
  unfold Pass.applyReset
  rw [here, there, stated.label, stated.location]
  split
  · exact refused _
  · rename_i label named
    dsimp only
    split
    · exact refused _
    · have moved := ((stated.defineLabel assembler label target).setStatement
        (.directive .reset { operand with value := target })
        (.directive .reset { other with value := target })).moveTo target
      refine moved.swaps (.done (Or.inr (Or.inr rfl)) _ _) rfl rfl fun program => ?_
      exact Emission.resetLinking?_congr rfl rfl rfl moved.unstated

end Directives

/-! ### Words -/

section Words

variable {assembler}

theorem room_of_running {next : Pass → Pass} (running : (p.allocate assembler next).fatal = none) :
    p.context.location ≤ Word.lastAddress := by
  by_contra full
  rw [allocate, if_pos (by omega), report_fatal, if_pos (by rfl)] at running
  cases fatal : p.fatal <;> simp [fatal] at running

theorem allocate_of_room (room : p.context.location ≤ Word.lastAddress) (next : Pass → Pass) :
    p.allocate assembler next = next p.occupy := by
  rw [allocate, if_neg (by omega)]

variable (restated : Restated p q)
include restated

/-- ADC and ADCE with the number in the place of the name. -/
theorem Restated.applyConstant {directive : Directive}
    (constant : directive = .adc ∨ directive = .adce) {operand other : Operand}
    (operands : operand.Swaps name value other)
    (running : ((p.setStatement (.directive directive operand)).applyConstant assembler
      operand).fatal = none) :
    Swaps name value
      ((p.setStatement (.directive directive operand)).applyConstant assembler operand)
      ((q.setStatement (.directive directive other)).applyConstant assembler other) := by
  have labelled := restated.defineOwnLabel assembler
  have filled : operand.kind ≠ .none ∧ other.kind ≠ .none := by
    cases operands <;> exact ⟨by simp, by simp⟩
  unfold Pass.applyConstant at running ⊢
  have room := room_of_running running
  rw [← defineOwnLabel_setStatement] at room
  have again : ((q.defineOwnLabel assembler).setStatement
      (.directive directive other)).context.location ≤ Word.lastAddress := by
    change (q.defineOwnLabel assembler).context.location ≤ _
    rw [labelled.location]
    exact room
  rw [← defineOwnLabel_setStatement, ← defineOwnLabel_setStatement, allocate_of_room room,
    allocate_of_room again, if_neg filled.1, if_neg filled.2]
  refine (labelled.setStatement _ _).occupy.swaps (.constant constant operands) rfl rfl ?_
  intro program
  rcases constant with rfl | rfl <;> rfl

end Words

end Pass

/-! ### Instructions -/

/-- The word of an instruction with an equated symbol is its word with the number, but that GOTO
wants an address. -/
theorem Instruction.encode_whole (table : Opcodes) {group : Group} {function name : Bytes}
    {value : Nat} (other : ¬ (group = .cntl ∧ function = ascii "GOTO")) :
    encode table ⟨group, function, ⟨Numeral.digits 10 value, .number, value⟩, none, 0⟩ =
      encode table ⟨group, function, ⟨name, .symbol, value⟩, some name, 0⟩ := by
  unfold encode
  dsimp only
  split
  · rfl
  · cases group with
    | cntl =>
      have jumpless : function ≠ ascii "GOTO" := fun same => other ⟨rfl, same⟩
      simp [encodeControl, controlFault?, isNumeric, Operand.Kind.isNumeric, jumpless, valueWord]
    | stack => simp [encodeStack, isNumeric, Operand.Kind.isNumeric, valueWord]
    | jump => simp [encodeAddress, isNumeric, Operand.Kind.isNumeric, valueWord, functionFlag]
    | moper => simp [encodeAddress, isNumeric, Operand.Kind.isNumeric, valueWord, functionFlag]
    | soper => simp [encodeShort, isNumeric, Operand.Kind.isNumeric, valueWord, functionFlag]
    | other => rfl

namespace Pass

variable {p q : Pass} {assembler : Assembler} {name : Bytes} {value : Nat}

/-- An equated symbol is not touched by the label of a line. -/
theorem defineOwnLabel_equated {symbol : Symbol} (found : p.symbols.get? name = some symbol)
    (equated : symbol.usage = .equated) :
    (p.defineOwnLabel assembler).symbols.get? name = some symbol := by
  rcases defineOwnLabel_cases p assembler with ⟨symbols, defined, step, _⟩ | kept
  · obtain ⟨later, known, evolves⟩ := step.extends name symbol found
    rw [defined, ← evolves.eq_of_equated equated]
    exact known
  · rw [kept, report_symbols]
    exact found

/-- An instruction takes the value of the name. -/
theorem substitute_name {location : Option Int}
    (found : p.symbols.get? name = some ⟨name, location, .equated, value, 0⟩) (group : Group)
    (function : Bytes) :
    p.substitute ⟨group, function, ⟨name, .symbol, 0⟩, none, 0⟩ =
      ⟨group, function, ⟨name, .symbol, value⟩, some name, 0⟩ := by
  simp [substitute, found]

/-- An instruction is encoded to the same word with the number in the place of the name. -/
theorem Restated.encodeLine (restated : Restated p q) {location : Option Int}
    (found : p.symbols.get? name = some ⟨name, location, .equated, value, 0⟩) {group : Group}
    {function : Bytes} {operand other : Operand} (operands : operand.Swaps name value other)
    (allowed : operand.kind = .symbol → ¬ (group = .cntl ∧ function = ascii "GOTO")) :
    Swaps name value (p.encodeLine assembler ⟨group, function, operand, none, 0⟩)
      (q.encodeLine assembler ⟨group, function, other, none, 0⟩) := by
  obtain ⟨first, second, substituted, again, swaps, encodes⟩ : ∃ first second,
      p.substitute ⟨group, function, operand, none, 0⟩ = first ∧
      q.substitute ⟨group, function, other, none, 0⟩ = second ∧
      Statement.Swaps name value (.instruction first) (.instruction second) ∧
      second.encode assembler.opcodes = first.encode assembler.opcodes := by
    cases operands with
    | whole =>
      exact ⟨_, _, substitute_name found group function, rfl, .whole group function,
        Instruction.encode_whole _ (allowed rfl)⟩
    | term kind replaces => exact ⟨_, _, rfl, rfl, .term group function kind replaces, rfl⟩
  have sound : operand.kind ≠ .malformed ∧ other.kind ≠ .malformed := by
    cases operands <;> exact ⟨by simp, by simp⟩
  unfold Pass.encodeLine
  dsimp only
  split
  · exact (restated.fail assembler _).swaps
  · rw [if_neg sound.1, if_neg sound.2, substituted, again, encodes]
    have stated := restated.setStatement (.instruction first) (.instruction second)
    split
    · exact (stated.setWord _).swaps swaps rfl rfl fun _ => rfl
    · exact (stated.fail assembler _).swaps

/-! ### Operands -/

theorem readOperand_of_next (p : Pass) {rest after : Bytes} {token : Token}
    (next : Token.next rest = (token, after)) (filled : (Operand.ofToken token).kind ≠ .none)
    (sound : (Operand.ofToken token).kind ≠ .malformed) :
    p.readOperand assembler rest = (Operand.ofToken token, after, p) := by
  have spoken : token.kind ≠ .comment := by
    intro comment
    apply filled
    rw [Operand.ofToken, comment]
    rfl
  unfold readOperand
  rw [next]
  dsimp only
  rw [if_neg spoken, if_neg sound]

section Read

variable {rest other after : Bytes} {first second : Token}
  (operands : (Operand.ofToken first).Swaps name value (Operand.ofToken second))
include operands

/-- The operands are read, and nothing is said of them. -/
theorem readOperand_swaps (assembler : Assembler) (next : Token.next rest = (first, after))
    (again : Token.next other = (second, after)) (p q : Pass) :
    p.readOperand assembler rest = (Operand.ofToken first, after, p) ∧
      q.readOperand assembler other = (Operand.ofToken second, after, q) := by
  have sound : ((Operand.ofToken first).kind ≠ .none ∧ (Operand.ofToken first).kind ≠ .malformed) ∧
      (Operand.ofToken second).kind ≠ .none ∧ (Operand.ofToken second).kind ≠ .malformed := by
    generalize Operand.ofToken first = operand at operands ⊢
    generalize Operand.ofToken second = other at operands ⊢
    cases operands <;> exact ⟨⟨by simp, by simp⟩, by simp, by simp⟩
  exact ⟨readOperand_of_next p next sound.1.1 sound.1.2,
    readOperand_of_next q again sound.2.1 sound.2.2⟩

variable (restated : Restated p q) (means : p.symbols.Means name value)
include restated means

/-- A directive with the number in the place of the name. -/
theorem Restated.readDirective {directive : Directive} (next : Token.next rest = (first, after))
    (again : Token.next other = (second, after))
    (allowed : directive ∈ [.equ, .eque, .adc, .adce] ∨
      directive = .reset ∧ (Operand.ofToken first).kind = .symbol)
    (running : (p.readDirective assembler directive rest).1.fatal = none) :
    (q.readDirective assembler directive other).2 = (p.readDirective assembler directive rest).2 ∧
      Swaps name value (p.readDirective assembler directive rest).1
        (q.readDirective assembler directive other).1 := by
  obtain ⟨read, reread⟩ := readOperand_swaps operands assembler next again p q
  unfold Pass.readDirective at running ⊢
  rw [read] at running ⊢
  rw [reread]
  dsimp only at running ⊢
  refine ⟨rfl, ?_⟩
  generalize Operand.ofToken first = operand at operands running allowed ⊢
  generalize Operand.ofToken second = other at operands ⊢
  rcases allowed with valued | ⟨rfl, symbolic⟩
  · simp only [List.mem_cons, List.not_mem_nil, or_false] at valued
    rcases valued with rfl | rfl | rfl | rfl
    · exact restated.applyEquate assembler means (Or.inl rfl) operands
    · exact restated.applyEquate assembler means (Or.inr rfl) operands
    · exact restated.applyConstant (Or.inl rfl) operands running
    · exact restated.applyConstant (Or.inr rfl) operands running
  · cases operands with
    | whole =>
      exact restated.applyReset assembler (resetTarget?_name means) (resetTarget?_digits means q)
    | term => cases symbolic

/-- An instruction with the number in the place of the name. -/
theorem Restated.readInstruction {group : Group} {word : Token} {early late : Bytes}
    (function : Token.next rest = (word, early)) (repeated : Token.next other = (word, late))
    (spoken : word.kind ≠ .comment) (next : Token.next early = (first, after))
    (again : Token.next late = (second, after))
    (allowed : (Operand.ofToken first).kind = .symbol →
      ¬ (group = .cntl ∧ upper word.text = ascii "GOTO"))
    (running : (p.readInstruction assembler group rest).1.fatal = none) :
    (q.readInstruction assembler group other).2 = (p.readInstruction assembler group rest).2 ∧
      Swaps name value (p.readInstruction assembler group rest).1
        (q.readInstruction assembler group other).1 := by
  obtain ⟨read, reread⟩ := readOperand_swaps operands assembler next again p q
  have reads : p.readFunction assembler group rest =
      (⟨group, upper word.text, Operand.ofToken first, none, 0⟩, after, p) := by
    unfold readFunction
    rw [function]
    dsimp only
    rw [if_neg spoken, read]
  have rereads : q.readFunction assembler group other =
      (⟨group, upper word.text, Operand.ofToken second, none, 0⟩, after, q) := by
    unfold readFunction
    rw [repeated]
    dsimp only
    rw [if_neg spoken, reread]
  unfold Pass.readInstruction at running ⊢
  rw [reads] at running ⊢
  rw [rereads]
  dsimp only at running ⊢
  refine ⟨rfl, ?_⟩
  have labelled := (restated.setStatement
    (.instruction ⟨group, upper word.text, Operand.ofToken first, none, 0⟩)
    (.instruction ⟨group, upper word.text, Operand.ofToken second, none, 0⟩)).defineOwnLabel
      assembler
  have room := room_of_running running
  obtain ⟨location, found⟩ := means.found
  rw [allocate_of_room room, allocate_of_room (by rw [labelled.location]; exact room)]
  exact labelled.occupy.encodeLine (defineOwnLabel_equated found rfl) operands allowed

end Read

end Pass

end WordAssembler

import WordAssembler.Proofs.Comments
import WordAssembler.Proofs.Replaced
import WordAssembler.Proofs.Uses

/-!
An absolute equate equals its value. Where a line uses a symbol that an earlier line equates to a
value without relocatable contributions, the decimal number of the value can stand in the place of
the symbol: the source assembles to the same object file, and the same is said of every line.
-/

set_option autoImplicit false

namespace WordAssembler

open Expression

/-! ### Uses -/

/-- What comes before the operand lets the operand be a name that stands for a number. A jump has to
be to an address. -/
def Lead.takesName : Lead → Bool
  | .directive kind => [Directive.equ, .eque, .adc, .adce, .reset].contains kind
  | .instruction group function => !(group == .cntl && function == ascii "GOTO")

/-- What comes before the operand lets the operand be an expression. -/
def Lead.takesTerm : Lead → Bool
  | .directive kind => [Directive.equ, .eque, .adc, .adce].contains kind
  | .instruction _ _ => true

/-- A line uses a name in its operand, which stands between `head` and `tail`. The operand is the
name by itself, or an expression of which the name is a term. -/
structure Assembler.Uses (assembler : Assembler) (name head before after tail : Bytes) : Prop where
  ended : Token.Ended head
  closed : tail.head?.all Token.isSeparator = true
  operand : ∃ lead, assembler.Leads head lead ∧
    (lead.takesName = true ∧ before = [] ∧ after = [] ∨
      lead.takesTerm = true ∧ Token.kindOf (before ++ name ++ after) = .expression ∧
        before.getLast?.all isOperator = true ∧ after.head?.all isOperator = true)

/-- Every name that is read as an operand, or as a term of one, is used there. -/
theorem Assembler.uses_of_lead? {assembler : Assembler} {source name before after : Bytes}
    {lead : Lead} {operand : Operand} (said : assembler.lead? source = some (lead, operand))
    (text : operand.text = before ++ name ++ after)
    (operands : operand.kind = .symbol ∧ lead.takesName = true ∧ before = [] ∧ after = [] ∨
      operand.kind = .expression ∧ lead.takesTerm = true ∧
        before.getLast?.all isOperator = true ∧ after.head?.all isOperator = true) :
    ∃ head tail, source = head ++ (before ++ name ++ after) ++ tail ∧
      assembler.Uses name head before after tail := by
  have kind : operand.kind = .symbol ∨ operand.kind = .expression :=
    operands.imp And.left And.left
  obtain ⟨head, tail, around, ended, closed, leads⟩ := leads_of_lead? said kind
  rw [text] at around
  refine ⟨head, tail, around, ended, closed, lead, leads, ?_⟩
  rcases operands with ⟨_, takes, first, last⟩ | ⟨expression, takes, first, last⟩
  · exact Or.inl ⟨takes, first, last⟩
  · have spelled := kindOf_of_lead? said expression
    rw [text] at spelled
    exact Or.inr ⟨takes, spelled, first, last⟩

/-! ### Operands -/

namespace Token

theorem isSeparator_of_isMark {b : UInt8} (mark : isMark b = true) : isSeparator b = false := by
  simp only [isMark, Bool.or_eq_true, beq_iff_eq] at mark
  rcases mark with (rfl | rfl) | rfl <;> rfl

/-- Letters, digits and marks are one token. -/
theorem isRun_of_bytes {text : Bytes} (nonempty : text ≠ [])
    (bytes : ∀ b ∈ text, Bytes.isAlphanumeric b = true ∨ isMark b = true) : IsRun text where
  nonempty := nonempty
  inside b member := by
    rcases bytes b member with letter | mark
    · exact isSeparator_of_isAlphanumeric letter
    · exact isSeparator_of_isMark mark
  word := by
    intro colon
    rcases bytes _ (List.mem_of_head? colon) with letter | mark
    · cases letter
    · cases mark

theorem isRun_of_word {text : Bytes} (isWord : text.IsWord) : IsRun text :=
  isRun_of_bytes isWord.nonempty fun b member => Or.inl (isWord.letters b member)

theorem Marked.isRun {text : Bytes} (marked : Marked text) : IsRun text := by
  obtain ⟨_, member, _⟩ := marked.mark
  exact isRun_of_bytes (List.ne_nil_of_mem member) marked.bytes

end Token

namespace Symbol.Table.Means

variable {table : Symbol.Table} {name : Bytes} {value : Nat} (means : table.Means name value)
include means

/-- The name and the number as operands. -/
theorem operands : (Operand.ofToken ⟨name, Token.kindOf name⟩).Swaps name value
    (Operand.ofToken ⟨Numeral.digits 10 value, Token.kindOf (Numeral.digits 10 value)⟩) := by
  have inside : (value : Int) ≤ Operand.largestWord := by
    have small := means.small
    simp only [Word.lastAddress, Operand.largestWord] at small ⊢
    omega
  have number : Operand.numberOf (Numeral.digits 10 value) = (.number, (value : Int)) := by
    rw [Operand.numberOf, Numeral.readInteger?_digits means.bounded]
    exact if_pos inside
  have first : Operand.ofToken ⟨name, Token.kindOf name⟩ = ⟨name, .symbol, 0⟩ := by
    rw [Operand.ofToken, means.spelled]
  have second : Operand.ofToken ⟨Numeral.digits 10 value, Token.kindOf (Numeral.digits 10 value)⟩ =
      ⟨Numeral.digits 10 value, .number, value⟩ := by
    rw [Operand.ofToken, kindOf_digits, number]
  rw [first, second]
  exact .whole

/-- An expression with the name and the expression with the number as operands. -/
theorem operands_around {before after : Bytes}
    (kind : Token.kindOf (before ++ name ++ after) = .expression)
    (start : before.getLast?.all isOperator = true) (finish : after.head?.all isOperator = true) :
    Token.kindOf (before ++ Numeral.digits 10 value ++ after) = .expression ∧
      (Operand.ofToken ⟨before ++ name ++ after, Token.kindOf (before ++ name ++ after)⟩).Swaps
        name value (Operand.ofToken ⟨before ++ Numeral.digits 10 value ++ after,
          Token.kindOf (before ++ Numeral.digits 10 value ++ after)⟩) := by
  have marked := Token.marked_of_expression kind
  have more : before ≠ [] ∨ after ≠ [] := by
    by_contra none
    rw [not_or, not_not, not_not] at none
    rw [none.1, none.2, List.nil_append, List.append_nil, means.spelled] at kind
    cases kind
  have bytes : ∀ b ∈ before ++ after, Bytes.isAlphanumeric b = true ∨ Token.isMark b = true := by
    intro b member
    apply marked.bytes
    rcases List.mem_append.1 member with early | late
    · exact List.mem_append_left _ (List.mem_append_left _ early)
    · exact List.mem_append_right _ late
  have other := (marked_around (Numeral.digits_isWord value) start finish more bytes).kindOf
  refine ⟨other, ?_⟩
  rw [kind, other]
  exact .term kind (.intro before after start finish)

end Symbol.Table.Means

/-- What comes before the operand lets it be this one. -/
def Lead.Takes (lead : Lead) (operand : Operand) : Prop :=
  operand.kind = .symbol ∧ lead.takesName = true ∨
    operand.kind = .expression ∧ lead.takesTerm = true

/-- The name is used as an operand, or in one, and the number can stand there. -/
theorem Assembler.Uses.tokens {assembler : Assembler} {name head before after tail : Bytes}
    (uses : assembler.Uses name head before after tail) {table : Symbol.Table} {value : Nat}
    (means : table.Means name value) :
    ∃ first second lead, before ++ name ++ after = first ∧
      before ++ Numeral.digits 10 value ++ after = second ∧ Token.IsRun first ∧
      Token.IsRun second ∧ assembler.Leads head lead ∧
      lead.Takes (Operand.ofToken ⟨first, Token.kindOf first⟩) ∧
      (Operand.ofToken ⟨first, Token.kindOf first⟩).Swaps name value
        (Operand.ofToken ⟨second, Token.kindOf second⟩) := by
  obtain ⟨lead, leads, ⟨takes, rfl, rfl⟩ | ⟨takes, kind, start, finish⟩⟩ := uses.operand
  · refine ⟨name, Numeral.digits 10 value, lead, by simp, by simp, Token.isRun_of_word means.word,
      Token.isRun_of_word (Numeral.digits_isWord value), leads, Or.inl ⟨?_, takes⟩, means.operands⟩
    rw [Operand.ofToken, means.spelled]
  · obtain ⟨other, operands⟩ := means.operands_around kind start finish
    refine ⟨_, _, lead, rfl, rfl, (Token.marked_of_expression kind).isRun,
      (Token.marked_of_expression other).isRun, leads, Or.inr ⟨?_, takes⟩, operands⟩
    rw [Operand.ofToken, kind]

/-- A line that uses a name is not blank, whatever stands in the place of the name. -/
theorem Assembler.Uses.isBlank {assembler : Assembler} {name head before after tail : Bytes}
    (uses : assembler.Uses name head before after tail) (more : Bytes) :
    Line.isBlank (head ++ more) = false := by
  obtain ⟨lead, leads, _⟩ := uses.operand
  have kind : (assembler.columns head).command.kind = .label := by
    cases leads with
    | directive command => exact kind_of_command? command
    | instruction command => exact kind_of_command? command
  have columns := (columns_of_ended uses.ended kind more).1
  apply isBlank_of_kind
  · rw [columns, kind]
    decide
  · rw [columns, kind]
    decide

/-! ### The line -/

namespace Pass

variable {p q : Pass} {assembler : Assembler} {name head before after tail : Bytes} {value : Nat}

/-- A line with the number in the place of the name is read as the line is. -/
theorem readCommand_swaps (alike : Alike p q) (fresh : p.Fresh)
    (means : p.symbols.Means name value) (uses : assembler.Uses name head before after tail)
    (said : p.line.source = head ++ (before ++ name ++ after) ++ tail)
    (again : q.line.source = head ++ (before ++ Numeral.digits 10 value ++ after) ++ tail)
    (running : (p.readCommand assembler).fatal = none) :
    Swaps name value (p.readCommand assembler) (q.readCommand assembler) := by
  obtain ⟨first, second, lead, here, there, run, other, leads, takes, operands⟩ := uses.tokens means
  rw [here] at said
  rw [there] at again
  have labelled := (alike.readLabel assembler (assembler.columns head).label).restated
  obtain ⟨_, _, _, symbols, _⟩ := readLabel_settles p assembler (assembler.columns head).label
    fresh.unnamed fresh.unstated
  have known : (p.readLabel assembler (assembler.columns head).label).symbols.Means name value := by
    rw [symbols]
    exact means
  cases lead with
  | directive directive =>
    obtain ⟨rest, columns, next⟩ := Assembler.columns_of_directive uses.ended uses.closed leads run
    obtain ⟨others, recolumns, renext⟩ :=
      Assembler.columns_of_directive uses.ended uses.closed leads other
    obtain ⟨command, _⟩ := leads
    rw [← said] at columns
    rw [← again] at recolumns
    have allowed : directive ∈ [.equ, .eque, .adc, .adce] ∨
        directive = .reset ∧ (Operand.ofToken ⟨first, Token.kindOf first⟩).kind = .symbol := by
      rcases takes with ⟨symbolic, takes⟩ | ⟨_, takes⟩
      · simp only [Lead.takesName, List.contains_iff_mem, List.mem_cons, List.not_mem_nil,
          or_false] at takes ⊢
        tauto
      · exact Or.inl (List.contains_iff_mem.1 takes)
    rw [readCommand_directive columns command] at running ⊢
    rw [readCommand_directive recolumns command]
    obtain ⟨rest, swaps⟩ := labelled.readDirective operands known next renext allowed
      (running_of_finishLine running)
    dsimp only
    rw [rest]
    exact swaps.finishLine assembler _
  | instruction group function =>
    obtain ⟨word, spoken, rfl, reads⟩ :=
      Assembler.columns_of_instruction uses.ended uses.closed leads
    obtain ⟨rest, after, columns, following, next⟩ := reads first run
    obtain ⟨others, later, recolumns, refollowing, renext⟩ := reads second other
    have command : assembler.command? (assembler.columns head).command = some (.group group) := by
      generalize upper word.text = function at leads
      cases leads
      assumption
    rw [← said] at columns
    rw [← again] at recolumns
    have allowed : (Operand.ofToken ⟨first, Token.kindOf first⟩).kind = .symbol →
        ¬ (group = .cntl ∧ upper word.text = ascii "GOTO") := by
      rintro symbolic ⟨rfl, jumps⟩
      rcases takes with ⟨_, takes⟩ | ⟨expression, _⟩
      · simp [Lead.takesName, jumps] at takes
      · rw [symbolic] at expression
        cases expression
    rw [readCommand_group columns command] at running ⊢
    rw [readCommand_group recolumns command]
    obtain ⟨rest, swaps⟩ := labelled.readInstruction operands known following refollowing spoken
      next renext allowed (running_of_finishLine running)
    dsimp only
    rw [rest]
    exact swaps.finishLine assembler _

theorem readLine_of_filled (later : p.line.number ≠ 1)
    (filled : Line.isBlank p.line.source = false) :
    p.readLine assembler =
      if p.context.ended then p.report assembler .afterEnd else p.readCommand assembler := by
  rw [readLine, if_neg (fun first => later first.1), filled]
  cases p.context.ended <;> rfl

/-- The line is read with the same diagnostics, and the program goes on in the same way. -/
theorem readLine_swaps (alike : Alike p q) (fresh : p.Fresh) (later : p.line.number ≠ 1)
    (number : q.line.number = p.line.number) (means : p.symbols.Means name value)
    (uses : assembler.Uses name head before after tail)
    (said : p.line.source = head ++ (before ++ name ++ after) ++ tail)
    (again : q.line.source = head ++ (before ++ Numeral.digits 10 value ++ after) ++ tail)
    (running : (p.readLine assembler).fatal = none) :
    Swaps name value (p.readLine assembler) (q.readLine assembler) := by
  have ended : q.context.ended = p.context.ended := (congrArg Context.ended alike.context :)
  have filled : Line.isBlank p.line.source = false := by
    rw [said, List.append_assoc]
    exact uses.isBlank _
  have refilled : Line.isBlank q.line.source = false := by
    rw [again, List.append_assoc]
    exact uses.isBlank _
  rw [readLine_of_filled later filled] at running ⊢
  rw [readLine_of_filled (by rwa [number]) refilled, ended]
  split
  · exact (alike.report assembler _).swaps
  · rename_i unended
    rw [if_neg unended] at running
    exact readCommand_swaps alike fresh means uses said again running

end Pass

/-! ### Readings -/

namespace Reading

/-- Two readings of which the second has the number in the place of the name in some lines. -/
structure Swaps (name : Bytes) (value : Nat) (first second : Reading) : Prop where
  context : second.context.uncounted = first.context.uncounted
  symbols : second.symbols = first.symbols
  lines : List.Forall₂ (Line.Swaps name value) first.lines second.lines
  running : second.fatal = none

variable {assembler : Assembler} {name : Bytes} {value : Nat} {first second : Reading}

/-- A reading goes on as the passes at its line do. -/
theorem Swaps.of_pass {numbered other : Bytes × Nat}
    (lines : List.Forall₂ (Line.Swaps name value) first.lines second.lines)
    (running : first.fatal = none) (open_ : second.fatal = none)
    (swaps : Pass.Swaps name value (first.stepped assembler numbered)
      (second.stepped assembler other))
    (going : (add assembler first numbered).fatal = none) :
    Swaps name value (add assembler first numbered) (add assembler second other) := by
  refine ⟨?_, ?_, ?_, ?_⟩
  · rw [add_context running, add_context open_, swaps.restated.context]
  · rw [add_symbols running, add_symbols open_, swaps.restated.symbols]
  · rw [add_lines running, add_lines open_]
    exact .cons swaps.line lines
  · exact add_running running numbered open_ swaps.restated.fatal going

/-- The same line is read. -/
theorem Swaps.add (swaps : Swaps name value first second) (running : first.fatal = none)
    (numbered : Bytes × Nat) (going : (add assembler first numbered).fatal = none) :
    Swaps name value (add assembler first numbered) (add assembler second numbered) := by
  have alike : Pass.Alike (first.stepped assembler numbered) (second.stepped assembler numbered) :=
    (fresh_alike swaps.context swaps.symbols running swaps.running numbered numbered).readLine
      assembler .same Iff.rfl
  exact .of_pass swaps.lines running swaps.running alike.swaps going

/-- The line that uses the name is read, and the line with the number in its place. -/
theorem swaps_of_uses {sources : List Bytes} {line other head before after tail : Bytes}
    (means : (ofLines assembler sources).symbols.Means name value)
    (uses : assembler.Uses name head before after tail)
    (said : Line.trimmed line = head ++ (before ++ name ++ after) ++ tail)
    (again : Line.trimmed other = head ++ (before ++ Numeral.digits 10 value ++ after) ++ tail)
    (running : (ofLines assembler (sources ++ [line])).fatal = none) :
    Swaps name value (ofLines assembler (sources ++ [line]))
      (ofLines assembler (sources ++ [other])) := by
  have earlier := running_of_append assembler running
  have opened : sources ≠ [] := by
    rintro rfl
    obtain ⟨_, found⟩ := means.found
    cases found
  have later : sources.length + 1 ≠ 1 := by
    have := List.length_pos_iff.2 opened
    omega
  rw [ofLines_concat] at running
  rw [ofLines_concat, ofLines_concat]
  have stepped := running
  rw [add_fatal earlier] at stepped
  have alike := fresh_alike rfl rfl earlier earlier (line, sources.length + 1)
    (other, sources.length + 1)
  have fresh := (ofLines assembler sources).fresh_isFresh (line, sources.length + 1)
  have swaps := Pass.readLine_swaps alike fresh later rfl means uses said again stepped
  refine .of_pass ?_ earlier earlier swaps running
  exact List.forall₂_same.2 fun line _ => Line.swaps_of_bare rfl

/-- The source with the number in the place of the name is read as the source is. -/
theorem swaps_of_set {sources : List Bytes} {k : Nat}
    {line other head before after tail : Bytes} (here : sources[k]? = some line)
    (means : (ofLines assembler (sources.take k)).symbols.Means name value)
    (uses : assembler.Uses name head before after tail)
    (said : Line.trimmed line = head ++ (before ++ name ++ after) ++ tail)
    (again : Line.trimmed other = head ++ (before ++ Numeral.digits 10 value ++ after) ++ tail)
    (running : (ofLines assembler sources).fatal = none) :
    Swaps name value (ofLines assembler sources) (ofLines assembler (sources.set k other)) := by
  obtain ⟨inside, rfl⟩ := List.getElem?_eq_some_iff.1 here
  have whole : sources = sources.take k ++ [sources[k]] ++ sources.drop (k + 1) := by
    rw [List.take_append_getElem, List.take_append_drop]
  have changed : sources.set k other = sources.take k ++ [other] ++ sources.drop (k + 1) := by
    rw [List.set_eq_take_append_cons_drop, if_pos inside, List.append_assoc,
      List.singleton_append]
  rw [whole] at running
  have read := swaps_of_uses means uses said again (running_of_append assembler running)
  rw [changed]
  nth_rewrite 1 [whole]
  have length : (sources.take k ++ [other]).length = (sources.take k ++ [sources[k]]).length := by
    rw [List.length_append, List.length_append]
    rfl
  apply relates_append assembler _ length read running
  intro first second numbered swaps running going
  exact swaps.add running numbered going

/-- The readings end in the same way. -/
theorem Swaps.finish (swaps : Swaps name value first second) (assembler : Assembler)
    (running : first.fatal = none) (filled : first.lines ≠ []) :
    (second.finish assembler).fatal = none ∧
      (second.finish assembler).program.context.uncounted =
        (first.finish assembler).program.context.uncounted ∧
      (second.finish assembler).program.symbols = (first.finish assembler).program.symbols ∧
      List.Forall₂ (Line.Swaps name value) (first.finish assembler).program.lines
        (second.finish assembler).program.lines := by
  have ended : second.context.ended = first.context.ended :=
    (congrArg Context.ended swaps.context :)
  have lines := swaps.lines
  cases reached : first.context.ended with
  | true =>
    have refilled : second.lines ≠ [] := by
      intro none
      rw [none] at lines
      exact filled (List.forall₂_nil_right_iff.1 lines)
    rw [finish_of_ended assembler running filled reached,
      finish_of_ended assembler swaps.running refilled (ended.trans reached)]
    exact ⟨swaps.running, swaps.context, swaps.symbols, List.rel_reverse lines⟩
  | false =>
    generalize present : first.lines = before at lines filled
    generalize represent : second.lines = after at lines
    cases lines with
    | nil => exact absurd rfl filled
    | cons here later =>
      obtain ⟨_, program⟩ := finish_of_unended assembler running present reached
      obtain ⟨fatal, other⟩ :=
        finish_of_unended assembler swaps.running represent (ended.trans reached)
      rw [program, other]
      refine ⟨fatal, Context.uncounted_count swaps.context _, swaps.symbols, ?_⟩
      exact List.rel_reverse (.cons (here.remark _) later)

end Reading

/-! ### Sources -/

namespace Assembler

variable {assembler : Assembler} {text : Bytes}

/-- A source that is read as another, but for the number in the place of the name. -/
theorem parse_swaps {changed name : Bytes} {value : Nat}
    (read : (assembler.parse text).fault = none)
    (fits : (Lines.read changed).tooLong = false)
    (swaps : Reading.Swaps name value (Reading.ofLines assembler (Lines.read text).lines)
      (Reading.ofLines assembler (Lines.read changed).lines)) :
    (assembler.parse changed).fault = none ∧
      (assembler.parse changed).program.context.uncounted =
        (assembler.parse text).program.context.uncounted ∧
      (assembler.parse changed).program.symbols = (assembler.parse text).program.symbols ∧
      List.Forall₂ (Line.Swaps name value) (assembler.parse text).program.lines
        (assembler.parse changed).program.lines := by
  obtain ⟨running, _⟩ := assembler.parse_running text (running_of_read read)
  have filled : (Reading.ofLines assembler (Lines.read text).lines).lines ≠ [] := by
    apply List.ne_nil_of_length_pos
    rw [Reading.lines_length running]
    exact List.length_pos_iff.2 (lines_ne_nil_of_read read)
  obtain ⟨fatal, same⟩ := swaps.finish assembler running filled
  rw [parse_of_short assembler (short_of_read read), parse_of_short assembler fits]
  exact ⟨by rw [fatal]; rfl, same⟩

/-- An absolute equate equals its value. On a line of a source that assembles, after a line that
equates a symbol to a value without relocatable contributions, the symbol as the whole operand or as
a term of it is a use of the symbol. The source with the decimal number of the value in the place of
such a use assembles to the same object file, and has the same diagnostics on every line. -/
theorem absolute_equates_replaceable (assembler : Assembler) {text : Bytes} {date : Date}
    {file : ObjectFile} {k : Nat} {line name : Bytes} {symbol : Symbol}
    (success : (assembler.assemble text date).outcome = .ok file)
    (here : (Lines.read text).lines[k]? = some line)
    (found : (Reading.ofLines assembler ((Lines.read text).lines.take k)).symbols.get? name =
      some symbol)
    (equated : symbol.usage = .equated) (absolute : symbol.relocations = 0) :
    (∀ {before after : Bytes} {lead : Lead} {operand : Operand},
      assembler.lead? (Line.trimmed line) = some (lead, operand) →
      operand.text = before ++ name ++ after →
      (operand.kind = .symbol ∧ lead.takesName = true ∧ before = [] ∧ after = [] ∨
        operand.kind = .expression ∧ lead.takesTerm = true ∧
          before.getLast?.all isOperator = true ∧ after.head?.all isOperator = true) →
      ∃ head tail, Line.trimmed line = head ++ (before ++ name ++ after) ++ tail ∧
        assembler.Uses name head before after tail) ∧
    ∀ {changed other head before after tail : Bytes}, assembler.Uses name head before after tail →
      Line.trimmed line = head ++ (before ++ name ++ after) ++ tail →
      Line.trimmed other = head ++ (before ++ Numeral.decimal symbol.value ++ after) ++ tail →
      (Lines.read changed).lines = (Lines.read text).lines.set k other →
      (Lines.read changed).tooLong = false →
        (assembler.assemble changed date).outcome = .ok file ∧
          (assembler.assemble changed date).program.lines.map Line.keys =
            (assembler.assemble text date).program.lines.map Line.keys := by
  refine ⟨uses_of_lead?, ?_⟩
  intro changed other head before after tail uses said again lines fits
  obtain ⟨read, emitted, emission, program, rfl⟩ := assemble_ok success
  obtain ⟨running, closed⟩ := assembler.parse_running text (running_of_read read)
  obtain ⟨value, same, means⟩ := Reading.means_of_equated found equated absolute
  rw [same] at again
  have swaps : Reading.Swaps name value (Reading.ofLines assembler (Lines.read text).lines)
      (Reading.ofLines assembler (Lines.read changed).lines) := by
    rw [lines]
    exact Reading.swaps_of_set here means uses said again running
  have kept : (assembler.parse text).program.symbols.Means name value := by
    rw [closed.symbols]
    exact means.later (Reading.extends_whole _ _) (Reading.ofLines_recordable _).labels
  obtain ⟨fault, context, symbols, rest⟩ := parse_swaps read fits swaps
  obtain ⟨another, reemission, file, keys⟩ := emit_swaps context symbols rest kept emission
  have assembled : assembler.assemble changed date =
      ⟨another.program, .ok another.file, (assembler.parse changed).log ++ another.log⟩ := by
    simp only [assemble, fault, reemission]
  rw [assembled, program, file]
  exact ⟨rfl, keys⟩

end Assembler

/-- An address constant that is one word past its label, with the distance as a symbol. -/
def namedSource : Bytes :=
  ascii "PROG START 0\nSTEP EQU 1\nHERE ADC HERE+STEP :next\n END PROG"

/-- The source with the distance as a number. -/
def numberedSource : Bytes :=
  ascii "PROG START 0\nSTEP EQU 1\nHERE ADC HERE+1 :next\n END PROG"

theorem Assembler.absolute_equates_replaceable_numberedSource : ∃ file,
    (Assembler.assemble {} namedSource Date.first).outcome = .ok file ∧
      (∃ head tail, ascii "HERE ADC HERE+STEP :next" = head ++ ascii "HERE+STEP" ++ tail ∧
        Assembler.Uses {} (ascii "STEP") head (ascii "HERE+") [] tail) ∧
      (Assembler.assemble {} numberedSource Date.first).outcome = .ok file ∧
      (Assembler.assemble {} numberedSource Date.first).program.lines.map Line.keys =
        (Assembler.assemble {} namedSource Date.first).program.lines.map Line.keys ∧
      file.modifications.length = 1 := by
  have here : (Lines.read namedSource).lines[2]? = some (ascii "HERE ADC HERE+STEP :next") := by
    decide +kernel
  have lines : (Lines.read numberedSource).lines =
      (Lines.read namedSource).lines.set 2 (ascii "HERE ADC HERE+1 :next") := by decide +kernel
  have fits : (Lines.read numberedSource).tooLong = false := by decide +kernel
  have found : (Reading.ofLines {} ((Lines.read namedSource).lines.take 2)).symbols.get?
      (ascii "STEP") = some ⟨ascii "STEP", some 0, .equated, 1, 0⟩ := by decide +kernel
  have said : Assembler.lead? {} (Line.trimmed (ascii "HERE ADC HERE+STEP :next")) =
      some (.directive .adc, ⟨ascii "HERE+STEP", .expression, 0⟩) := by decide +kernel
  have leads : Assembler.Leads {} (ascii "HERE ADC ") (.directive .adc) :=
    .directive (by decide +kernel) (by decide +kernel)
  have uses : Assembler.Uses {} (ascii "STEP") (ascii "HERE ADC ") (ascii "HERE+") []
      (ascii " :next") :=
    ⟨rfl, rfl, _, leads, Or.inr ⟨rfl, by decide +kernel, rfl, rfl⟩⟩
  have assembles : (Assembler.assemble {} namedSource Date.first).outcome.toOption.map
      (·.modifications.length) = some 1 := by decide +kernel
  cases success : (Assembler.assemble {} namedSource Date.first).outcome with
  | error fault =>
    rw [success] at assembles
    cases assembles
  | ok file =>
    obtain ⟨covers, replaces⟩ :=
      Assembler.absolute_equates_replaceable {} success here found rfl rfl
    have text : ascii "HERE+STEP" = ascii "HERE+" ++ ascii "STEP" ++ [] := by decide
    have used := covers said text (Or.inr ⟨rfl, rfl, rfl, rfl⟩)
    obtain ⟨again, keys⟩ := replaces uses (by decide +kernel) (by decide +kernel) lines fits
    rw [success] at assembles
    exact ⟨file, rfl, used, again, keys, Option.some.inj assembles⟩

end WordAssembler

import WordAssembler.Proofs.Reading

/-!
Lines with a word after the first pass. Such a line keeps the label and the comment of its source,
and it says something only if none of its diagnostics is serious.
-/

set_option autoImplicit false

namespace WordAssembler

/-- The comment that starts before the end of a number of tokens. -/
def commentAmong : Nat → Bytes → Option Bytes
  | 0, _ => none
  | count + 1, rest =>
    if (Token.next rest).1.kind = .comment then some (Token.next rest).1.text
    else commentAmong count (Token.next rest).2

def afterTokens : Nat → Bytes → Bytes
  | 0, rest => rest
  | count + 1, rest => afterTokens count (Token.next rest).2

theorem Token.next_nil : Token.next [] = (⟨[], .empty⟩, []) := rfl

/-- Nothing follows a comment. -/
theorem Token.next_comment {line : Bytes} (comment : (Token.next line).1.kind = .comment) :
    (Token.next line).2 = [] := by
  unfold Token.next at comment ⊢
  cases start : line.dropGap with
  | nil => rfl
  | cons b rest =>
    rw [start] at comment
    simp only [Token.first] at comment ⊢
    split
    · rfl
    · rename_i other
      rw [if_neg other] at comment
      have first := Token.head_of_comment comment
      rw [List.takeWhile_cons] at first
      split at first
      · exact absurd (Option.some.inj first) other
      · cases first

theorem afterTokens_nil (count : Nat) : afterTokens count [] = [] := by
  induction count with
  | zero => rfl
  | succ count ih => exact ih

/-- A comment is found when its token is read, and kept from then on. -/
theorem commentAmong_succ (count : Nat) (rest : Bytes) :
    commentAmong (count + 1) rest =
      if (Token.next (afterTokens count rest)).1.kind = .comment then
        some (Token.next (afterTokens count rest)).1.text
      else commentAmong count rest := by
  induction count generalizing rest with
  | zero => rfl
  | succ count ih =>
    rw [commentAmong, afterTokens]
    by_cases comment : (Token.next rest).1.kind = .comment
    · rw [if_pos comment, Token.next_comment comment, afterTokens_nil, Token.next_nil,
        if_neg Token.Kind.noConfusion, commentAmong, if_pos comment]
    · rw [if_neg comment, ih, commentAmong, if_neg comment]

/-- The comment of a source line with a word: an instruction has a function and an operand before
it, and a directive an operand. -/
def Assembler.commentOf (assembler : Assembler) (source : Bytes) : Option Bytes :=
  match assembler.command? (assembler.columns source).command with
  | some (.group _) => commentAmong 3 (assembler.columns source).rest
  | some (.directive _) => commentAmong 2 (assembler.columns source).rest
  | none => none

namespace Pass

/-- The line of the pass has a label and a comment, its flag is not set yet, and if it is
invalidated its word is the idle one. It is no ENTRY directive. -/
structure Holds (p : Pass) (label comment : Option Bytes) : Prop where
  label : p.line.label = label
  comment : p.line.comment = comment
  flag : p.line.flag = .absolute
  idle : p.line.statement = some .invalidated → p.line.word = Line.idleWord
  other : ∀ operand, p.line.statement ≠ some (.directive .entry operand)

section Holds

variable {p : Pass} {label comment : Option Bytes} (holds : p.Holds label comment)
  (assembler : Assembler)
include holds

theorem Holds.of_line {q : Pass}
    (same : (q.line.label, q.line.comment, q.line.flag, q.line.statement, q.line.word) =
      (p.line.label, p.line.comment, p.line.flag, p.line.statement, p.line.word)) :
    q.Holds label comment := by
  simp only [Prod.mk.injEq] at same
  obtain ⟨named, remarked, flag, statement, word⟩ := same
  refine ⟨named.trans holds.label, remarked.trans holds.comment, flag.trans holds.flag, ?_, ?_⟩
  · rw [statement, word]
    exact holds.idle
  · rw [statement]
    exact holds.other

theorem Holds.report (key : Key) : (p.report assembler key).Holds label comment :=
  holds.of_line (by rw [report_line])

theorem Holds.invalidate : p.invalidate.Holds label comment :=
  ⟨holds.label, holds.comment, rfl, fun _ => rfl, by simp [Line.invalidate]⟩

theorem Holds.fail (key : Key) : (p.fail assembler key).Holds label comment :=
  (holds.report assembler key).invalidate

theorem Holds.setInstruction (instruction : Instruction) :
    (p.setStatement (.instruction instruction)).Holds label comment :=
  ⟨holds.label, holds.comment, holds.flag, by simp, by simp⟩

theorem Holds.setWord (word : Word) (stated : p.line.statement ≠ some .invalidated) :
    (p.setWord word).Holds label comment :=
  ⟨holds.label, holds.comment, holds.flag, fun invalidated => absurd invalidated stated,
    holds.other⟩

theorem Holds.defineOwnLabel : (p.defineOwnLabel assembler).Holds label comment := by
  rcases defineOwnLabel_cases p assembler with ⟨symbols, defined, _⟩ | kept
  · rw [defined]
    exact holds.of_line rfl
  · rw [kept]
    exact holds.report assembler _

theorem Holds.encodeLine (instruction : Instruction) :
    (p.encodeLine assembler instruction).Holds label comment := by
  unfold Pass.encodeLine
  split
  · exact holds.fail assembler _
  · split
    · exact holds.invalidate
    · have stated := holds.setInstruction (p.substitute instruction)
      dsimp only
      split
      · exact stated.setWord _ (by simp)
      · exact stated.fail assembler _

/-- A line that was given a word holds what it held. -/
theorem Holds.allocate (next : Pass → Pass)
    (nextHolds : ∀ q : Pass, q.line.statement = p.line.statement → q.Holds label comment →
      (next q).Holds label comment) :
    (p.allocate assembler next).Holds label comment := by
  unfold Pass.allocate
  split
  · exact holds.report assembler _
  · exact nextHolds p.occupy rfl (holds.of_line rfl)

end Holds

variable (assembler : Assembler) {p : Pass} {label comment : Option Bytes}

theorem readOperand_holds (count : Nat) (rest : Bytes)
    (holds : p.Holds label (commentAmong count rest)) :
    (p.readOperand assembler (afterTokens count rest)).2.2.Holds label
      (commentAmong (count + 1) rest) := by
  have commented : (if (Token.next (afterTokens count rest)).1.kind = .comment then
      p.setComment (some (Token.next (afterTokens count rest)).1.text) else p).Holds label
        (commentAmong (count + 1) rest) := by
    rw [commentAmong_succ]
    split
    · exact ⟨holds.label, rfl, holds.flag, holds.idle, holds.other⟩
    · exact holds
  unfold readOperand
  dsimp only
  split
  · exact commented.report assembler _
  · exact commented

theorem readTrailing_holds (count : Nat) (rest : Bytes)
    (holds : p.Holds label (commentAmong count rest)) :
    (p.readTrailing assembler (afterTokens count rest)).Holds label
      (commentAmong (count + 1) rest) := by
  rw [commentAmong_succ]
  unfold readTrailing
  dsimp only
  split
  · rename_i empty
    rw [if_neg (by simp [empty])]
    exact holds
  · rename_i comment
    rw [if_pos comment]
    exact ⟨holds.label, rfl, holds.flag, holds.idle, holds.other⟩
  · rename_i other
    rw [if_neg other]
    exact holds.report assembler _

theorem readFunction_holds (group : Group) (rest : Bytes) (holds : p.Holds label none) :
    (p.readFunction assembler group rest).2.2.Holds label (commentAmong 2 rest) ∧
      (p.readFunction assembler group rest).2.1 = afterTokens 2 rest := by
  unfold readFunction
  dsimp only
  split
  · rename_i comment
    have after := Token.next_comment comment
    refine ⟨?_, ?_⟩
    · rw [commentAmong, if_pos comment]
      exact ⟨holds.label, rfl, holds.flag, holds.idle, holds.other⟩
    · rw [afterTokens, after, afterTokens_nil]
  · rename_i other
    have one : p.Holds label (commentAmong 1 rest) := by
      rw [commentAmong, if_neg other]
      exact holds
    exact ⟨readOperand_holds assembler 1 rest one, rfl⟩

/-- After the end of a line without a fault, a serious diagnostic has invalidated it. -/
theorem finishLine_holds (count : Nat) (rest : Bytes)
    (holds : p.Holds label (commentAmong count rest))
    (running : (p.finishLine assembler (afterTokens count rest)).fatal = none) :
    (p.finishLine assembler (afterTokens count rest)).Holds label
        (commentAmong (count + 1) rest) ∧
      ((p.finishLine assembler (afterTokens count rest)).line.addressed = true →
        (p.finishLine assembler (afterTokens count rest)).line.has .serious = true →
        (p.finishLine assembler (afterTokens count rest)).line.statement = some .invalidated) := by
  have trailing := readTrailing_holds assembler count rest holds
  unfold finishLine at running ⊢
  split
  · rename_i halted
    rw [if_pos halted] at running
    rw [running] at halted
    cases halted
  · dsimp only
    split
    · exact ⟨trailing.invalidate, fun _ _ => rfl⟩
    · rename_i kept
      refine ⟨trailing, ?_⟩
      intro addressed serious
      simpa [addressed, serious, Line.isInvalidated] using kept

theorem readInstruction_holds (group : Group) (rest : Bytes) (holds : p.Holds label none) :
    (p.readInstruction assembler group rest).1.Holds label (commentAmong 2 rest) ∧
      (p.readInstruction assembler group rest).2 = afterTokens 2 rest := by
  obtain ⟨read, after⟩ := readFunction_holds assembler group rest holds
  refine ⟨?_, after⟩
  have stated := read.setInstruction (p.readFunction assembler group rest).1
  exact (stated.defineOwnLabel assembler).allocate assembler _
    fun q _ holds => holds.encodeLine assembler _

/-! ### Directives -/

theorem defineLabel_addressed (p : Pass) (label : Bytes) (location : Int) :
    (p.defineLabel assembler label location).line.addressed = p.line.addressed := by
  rcases defineLabel_cases p assembler label location with ⟨symbols, defined, _⟩ | kept
  · rw [defined]
  · rw [kept, report_line]

theorem defineOwnLabel_statement (p : Pass) :
    (p.defineOwnLabel assembler).line.statement = p.line.statement := by
  rcases defineOwnLabel_cases p assembler with ⟨symbols, defined, _⟩ | kept
  · rw [defined]
  · rw [kept, report_line]

theorem ignoreLabel_addressed (p : Pass) :
    (p.ignoreLabel assembler).line.addressed = p.line.addressed := by
  unfold ignoreLabel
  split <;> simp

/-- Only four directives give a word to their line. -/
theorem applyDirective_unaddressed (p : Pass) (directive : Directive) (operand : Operand)
    (plain : directive ∉ [.dat, .adc, .adce, .nop]) :
    (p.applyDirective assembler directive operand).line.addressed = p.line.addressed := by
  have equated : ∀ directive, (p.applyEquate assembler directive operand).line.addressed =
      p.line.addressed := by
    intro directive
    unfold applyEquate
    repeat' split
    all_goals simp [equate]
    all_goals split <;> simp
  have ignored := ignoreLabel_addressed assembler p
  cases directive with
  | start =>
    simp only [applyDirective, applyStart]
    repeat' split
    all_goals simp [beginProgram]
  | finish =>
    simp only [applyDirective, applyEnd]
    split <;> simp [ignored]
  | equ => exact equated _
  | eque => exact equated _
  | entry =>
    simp only [applyDirective, applyEntry]
    repeat' split
    all_goals simp [ignored]
  | extrn =>
    simp only [applyDirective, applyExternal]
    repeat' split
    all_goals simp [ignored]
  | reset =>
    simp only [applyDirective, applyReset]
    repeat' split
    all_goals simp [defineLabel_addressed]
  | dat => simp at plain
  | adc => simp at plain
  | adce => simp at plain
  | nop => simp at plain

/-- A line that a directive gave a word holds what it held. -/
theorem applyDirective_holds (directive : Directive) (operand : Operand)
    (holds : p.Holds label comment)
    (stated : p.line.statement = some (.directive directive operand))
    (given : directive ∈ [.dat, .adc, .adce, .nop]) :
    (p.applyDirective assembler directive operand).Holds label comment := by
  have labelled := holds.defineOwnLabel assembler
  have valid : (p.defineOwnLabel assembler).line.statement ≠ some .invalidated := by
    rw [defineOwnLabel_statement, stated]
    simp
  have constant : (p.applyConstant assembler operand).Holds label comment := by
    refine labelled.allocate assembler _ fun q same holds => ?_
    split
    · exact holds.report assembler _
    · exact holds
  cases directive with
  | dat =>
    change (p.applyData assembler operand).Holds label comment
    refine labelled.allocate assembler _ fun q same holds => ?_
    split
    · exact holds.setWord _ (same ▸ valid)
    · split
      · exact holds
      · exact holds.report assembler _
  | adc => exact constant
  | adce => exact constant
  | nop =>
    change (p.applyIdle assembler operand).Holds label comment
    refine labelled.allocate assembler _ fun q same holds => ?_
    have idle := holds.setWord Line.idleWord (same ▸ valid)
    dsimp only
    split
    · exact idle
    · exact idle.report assembler _
  | _ => simp at given

theorem readDirective_holds (directive : Directive) (rest : Bytes) (holds : p.Holds label none)
    (unaddressed : p.line.addressed = false)
    (addressed : (p.readDirective assembler directive rest).1.line.addressed = true) :
    (p.readDirective assembler directive rest).1.Holds label (commentAmong 1 rest) ∧
      (p.readDirective assembler directive rest).2 = afterTokens 1 rest := by
  refine ⟨?_, rfl⟩
  have read := readOperand_holds assembler 0 rest holds
  obtain ⟨added, remarks, _⟩ := readOperand_remarks p assembler rest
  by_cases given : directive ∈ [.dat, .adc, .adce, .nop]
  · refine applyDirective_holds assembler directive _ ?_ rfl given
    refine ⟨read.label, read.comment, read.flag, by simp, ?_⟩
    rintro operand entry
    simp only [setStatement, mapLine, Option.some.injEq, Statement.directive.injEq] at entry
    rw [entry.1] at given
    simp at given
  · have kept := applyDirective_unaddressed assembler
      ((p.readOperand assembler rest).2.2.setStatement
        (.directive directive (p.readOperand assembler rest).1)) directive
      (p.readOperand assembler rest).1 given
    rw [show (p.readDirective assembler directive rest).1.line.addressed = _ from kept] at addressed
    simp only [setStatement, mapLine, remarks.settles.addressed, unaddressed] at addressed
    cases addressed

end Pass

/-- What a line with a word is after the first pass. -/
structure Line.Worded (assembler : Assembler) (line : Line) : Prop where
  label : line.label = Pass.acceptedLabel (assembler.columns line.source).label
  comment : line.comment = assembler.commentOf line.source
  flag : line.flag = .absolute
  idle : line.statement = some .invalidated → line.word = Line.idleWord
  other : ∀ operand, line.statement ≠ some (.directive .entry operand)
  serious : line.has .serious = true → line.statement = some .invalidated

namespace Pass

variable (assembler : Assembler) {p : Pass}

theorem readLabel_holds (fresh : p.Fresh) (column : Option Token) :
    (p.readLabel assembler column).Holds (acceptedLabel column) none := by
  rcases readLabel_cases p assembler column fresh.unnamed with read | ⟨rejected, key, _, read⟩
  · rw [read]
    exact ⟨rfl, fresh.uncommented, fresh.flag, by simp [fresh.unstated], by simp [fresh.unstated]⟩
  · rw [read, rejected]
    exact ⟨by simp [fresh.unnamed], by simp [fresh.uncommented], by simp [fresh.flag],
      by simp [fresh.unstated], by simp [fresh.unstated]⟩

theorem readUnknown_unaddressed (p : Pass) (columns : Columns) :
    (p.readUnknown assembler columns).line.addressed = p.line.addressed := by
  have commented : (if columns.command.kind = .comment then
      p.setComment (some columns.command.text) else p).line.addressed = p.line.addressed := by
    split <;> rfl
  have labels := (defineOwnLabel_labels (if columns.command.kind = .comment then
    p.setComment (some columns.command.text) else p) assembler).addressed
  unfold readUnknown
  dsimp only
  generalize (if columns.command.kind = .comment then
    p.setComment (some columns.command.text) else p) = q at commented labels
  split
  · exact labels.trans commented
  · rw [report_line]
    exact labels.trans commented

/-- What is held at the end of a line with a word. -/
theorem Holds.worded {column comment : Option Bytes} (holds : p.Holds column comment)
    (label : column = acceptedLabel (assembler.columns p.line.source).label)
    (same : comment = assembler.commentOf p.line.source)
    (serious : p.line.has .serious = true → p.line.statement = some .invalidated) :
    p.line.Worded assembler :=
  ⟨holds.label.trans label, holds.comment.trans same, holds.flag, holds.idle, holds.other, serious⟩

theorem readCommand_worded (fresh : p.Fresh) (running : (p.readCommand assembler).fatal = none)
    (addressed : (p.readCommand assembler).line.addressed = true) :
    (p.readCommand assembler).line.Worded assembler := by
  have source : (p.readCommand assembler).line.source = p.line.source := by
    obtain ⟨added, reports⟩ := readCommand_follows p assembler
    exact reports.source
  generalize split : assembler.columns p.line.source = columns
  have holds := readLabel_holds assembler fresh columns.label
  have unaddressed := (readLabel_settles p assembler columns.label fresh.unnamed
    fresh.unstated).2.2.2.2.1.trans fresh.unaddressed
  cases named : assembler.command? columns.command with
  | none =>
    rw [readCommand_unknown split named, readUnknown_unaddressed, unaddressed] at addressed
    cases addressed
  | some command =>
    cases command with
    | group group =>
      obtain ⟨read, after⟩ := readInstruction_holds assembler group columns.rest holds
      have comment : assembler.commentOf p.line.source = commentAmong 3 columns.rest := by
        simp only [Assembler.commentOf, split, named]
      rw [readCommand_group split named, after] at running addressed source ⊢
      obtain ⟨finished, serious⟩ := finishLine_holds assembler 2 _ read running
      refine finished.worded assembler ?_ ?_ (serious addressed)
      · rw [source, split]
      · rw [source, comment]
    | directive directive =>
      have comment : assembler.commentOf p.line.source = commentAmong 2 columns.rest := by
        simp only [Assembler.commentOf, split, named]
      rw [readCommand_directive split named] at running addressed source ⊢
      have given := addressed
      rw [(finishLine_settles _ assembler _).addressed] at given
      obtain ⟨read, after⟩ := readDirective_holds assembler directive columns.rest holds
        unaddressed given
      rw [after] at running addressed source ⊢
      obtain ⟨finished, serious⟩ := finishLine_holds assembler 1 _ read running
      refine finished.worded assembler ?_ ?_ (serious addressed)
      · rw [source, split]
      · rw [source, comment]

/-- A line that has got a word says something only without a serious diagnostic. -/
theorem readLine_worded (fresh : p.Fresh) (running : (p.readLine assembler).fatal = none)
    (addressed : (p.readLine assembler).line.addressed = true) :
    (p.readLine assembler).line.Worded assembler := by
  rcases readLine_cases p assembler with ⟨key, _, refused⟩ | blank | ⟨_, _, command⟩
  · rw [refused, report_line, fresh.unaddressed] at addressed
    cases addressed
  · rw [blank, readBlank, setComment, mapLine, fresh.unaddressed] at addressed
    cases addressed
  · rw [command] at running addressed ⊢
    exact readCommand_worded assembler fresh running addressed

end Pass

/-! ### Runs -/

namespace Reading

variable {assembler : Assembler}

/-- Every line with a word is worded after the first pass. -/
theorem lines_worded {sources : List Bytes}
    (running : (ofLines assembler sources).fatal = none) :
    ∀ line ∈ (ofLines assembler sources).lines, line.addressed = true → line.Worded assembler := by
  induction sources using List.reverseRecOn with
  | nil => exact fun line member => absurd member List.not_mem_nil
  | append_singleton sources source ih =>
    have before := running_of_append assembler running
    rw [ofLines_concat] at running ⊢
    rw [add_fatal before] at running
    rw [add_lines before]
    intro line member addressed
    rcases List.mem_cons.1 member with rfl | earlier
    · exact Pass.readLine_worded assembler (fresh_isFresh _ _) running addressed
    · exact ih before line earlier addressed

end Reading

end WordAssembler

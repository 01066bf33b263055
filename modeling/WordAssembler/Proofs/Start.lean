import WordAssembler.Proofs.Commented
import WordAssembler.Proofs.Fields
import WordAssembler.Proofs.Words

/-!
The line that begins a program: a name, START, and a load address in decimal. It is read back as
what was written, so without an error the program has that name and that address.
-/

set_option autoImplicit false

namespace WordAssembler

/-! ### Tokens -/

theorem Bytes.ne_of_isAlphanumeric {b other : UInt8} (alphanumeric : Bytes.isAlphanumeric b = true)
    (mark : Bytes.isAlphanumeric other = false) : b ≠ other := by
  rintro rfl
  rw [mark] at alphanumeric
  cases alphanumeric

namespace Token

theorem isSeparator_of_isAlphanumeric {b : UInt8} (alphanumeric : Bytes.isAlphanumeric b = true) :
    isSeparator b = false := by
  have space : b ≠ byte ' ' := Bytes.ne_of_isAlphanumeric alphanumeric rfl
  have comma : b ≠ byte ',' := Bytes.ne_of_isAlphanumeric alphanumeric rfl
  have tab : b ≠ byte '\t' := Bytes.ne_of_isAlphanumeric alphanumeric rfl
  simp [isSeparator, space, comma, tab]

/-- The first token of a line that starts with a run of bytes, if it is no comment. -/
theorem next_run {run after : Bytes} (nonempty : run ≠ [])
    (inside : ∀ b ∈ run, isSeparator b = false) (word : run.head? ≠ some (byte ':'))
    (ends : after.head?.all isSeparator = true) :
    Token.next (run ++ after) = (⟨run, kindOf run⟩, after.drop 1) := by
  have kept : ∀ b ∈ run, (!isSeparator b) = true := by
    intro b member
    rw [inside b member]
    rfl
  have stop : after.takeWhile (!isSeparator ·) = [] ∧ after.dropWhile (!isSeparator ·) = after := by
    cases after with
    | nil => exact ⟨rfl, rfl⟩
    | cons b rest =>
      have separator : isSeparator b = true := by simpa using ends
      exact ⟨by simp [separator], by simp [separator]⟩
  have taken : (run ++ after).takeWhile (!isSeparator ·) = run := by
    rw [List.takeWhile_append_of_pos kept, stop.1, List.append_nil]
  have dropped : (run ++ after).dropWhile (!isSeparator ·) = after := by
    rw [List.dropWhile_append_of_pos kept, stop.2]
  cases run with
  | nil => exact absurd rfl nonempty
  | cons b rest =>
    have colon : b ≠ byte ':' := fun same => word (congrArg some same)
    have gapless : Bytes.isGap b = false := by
      cases gap : Bytes.isGap b with
      | false => rfl
      | true =>
        have separator := isSeparator_of_isGap gap
        rw [inside b List.mem_cons_self] at separator
        cases separator
    have start : Bytes.dropGap (b :: rest ++ after) = b :: rest ++ after := by
      rw [Bytes.dropGap, List.cons_append, List.dropWhile_cons_of_neg]
      rw [gapless]
      exact Bool.false_ne_true
    rw [Token.next, start]
    rw [List.cons_append] at taken dropped ⊢
    simp only [Token.first, colon, ↓reduceIte, taken, dropped]

/-- The first token of a line that starts with a word. -/
theorem next_word {word after : Bytes} (nonempty : word ≠ [])
    (letters : ∀ b ∈ word, Bytes.isAlphanumeric b = true)
    (ends : after.head?.all isSeparator = true) :
    Token.next (word ++ after) = (⟨word, kindOf word⟩, after.drop 1) := by
  refine next_run nonempty (fun b member => ?_) (fun head => ?_) ends
  · exact isSeparator_of_isAlphanumeric (letters b member)
  · exact Bytes.ne_of_isAlphanumeric (letters _ (List.mem_of_head? head)) rfl rfl

theorem isName_of_label {name : Bytes} (label : kindOf name = .label) : isName name = true := by
  unfold kindOf at label
  repeat' split at label
  all_goals cases label
  assumption

theorem letters_of_label {name : Bytes} (label : kindOf name = .label) :
    name ≠ [] ∧ ∀ b ∈ name, Bytes.isAlphanumeric b = true := by
  have isName := isName_of_label label
  cases name with
  | nil => cases isName
  | cons first rest =>
    simp only [Token.isName, Bool.and_eq_true, List.all_eq_true] at isName
    refine ⟨List.cons_ne_nil _ _, ?_⟩
    intro b member
    rcases List.mem_cons.1 member with rfl | later
    · simp [Bytes.isAlphanumeric, isName.1]
    · exact isName.2 b later

/-- A run of digits is a number. -/
theorem kindOf_of_digits {text : Bytes} (nonempty : text ≠ [])
    (digits : ∀ b ∈ text, Bytes.isDigit b = true) : kindOf text = .number := by
  have all : text.all Bytes.isDigit = true := List.all_eq_true.2 digits
  cases text with
  | nil => exact absurd rfl nonempty
  | cons b rest =>
    have digit := digits b List.mem_cons_self
    have colon : b ≠ byte ':' := by
      rintro rfl
      cases digit
    have literal : isLiteralLetter b = false := by
      have letters : (ascii "XxBbIiCc").all (!Bytes.isDigit ·) = true := by decide
      cases letter : isLiteralLetter b with
      | false => rfl
      | true =>
        have other := List.all_eq_true.1 letters b (by simpa [isLiteralLetter] using letter)
        rw [digit] at other
        cases other
    have plain : startsLiteral (b :: rest) = false := by
      cases rest with
      | nil => rfl
      | cons sign rest => simp [startsLiteral, literal]
    simp [kindOf, colon, plain, all]

end Token

def startLine (name : Bytes) (load : Nat) : Bytes :=
  name ++ ascii " START " ++ Numeral.digits 10 load

/-- A name that a program can have: a word of 2 to 32 letters and digits, a letter first, that names
no group and no directive. -/
def Assembler.isProgramName (assembler : Assembler) (name : Bytes) : Bool :=
  Token.kindOf name == .label && Expression.isLabelLength name && !assembler.isReserved name

section StartLine

variable {assembler : Assembler} {name : Bytes} (load : Nat)

theorem kindOf_digits : Token.kindOf (Numeral.digits 10 load) = .number :=
  Token.kindOf_of_digits (Numeral.digits_ne_nil (by omega) load)
    fun b member => Numeral.isDigit_of_mem_digits member

theorem next_digits :
    Token.next (Numeral.digits 10 load) = (⟨Numeral.digits 10 load, .number⟩, []) := by
  have word := @Token.next_word (Numeral.digits 10 load) [] (Numeral.digits_ne_nil (by omega) load)
    (fun b member => by simp [Bytes.isAlphanumeric, Numeral.isDigit_of_mem_digits member]) rfl
  rwa [List.append_nil, kindOf_digits] at word

theorem columns_startLine (named : assembler.isProgramName name = true) :
    assembler.columns (startLine name load) =
      ⟨some ⟨name, .label⟩, ⟨ascii "START", .label⟩, Numeral.digits 10 load⟩ := by
  simp only [Assembler.isProgramName, Bool.and_eq_true, beq_iff_eq, Bool.not_eq_true'] at named
  obtain ⟨⟨label, _⟩, free⟩ := named
  obtain ⟨nonempty, letters⟩ := Token.letters_of_label label
  have first : Token.next (startLine name load) =
      (⟨name, .label⟩, ascii "START" ++ (byte ' ' :: Numeral.digits 10 load)) := by
    rw [startLine, List.append_assoc, Token.next_word nonempty letters rfl, label]
    rfl
  have second : Token.next (ascii "START" ++ (byte ' ' :: Numeral.digits 10 load)) =
      (⟨ascii "START", .label⟩, Numeral.digits 10 load) :=
    Token.next_word (by decide) (List.all_eq_true.1 (by decide)) rfl
  have starts : startsLabel (startLine name load) = true := by
    cases name with
    | nil => exact absurd rfl nonempty
    | cons b rest =>
      have alphanumeric := letters b List.mem_cons_self
      have space : b ≠ byte ' ' := Bytes.ne_of_isAlphanumeric alphanumeric rfl
      have tab : b ≠ byte '\t' := Bytes.ne_of_isAlphanumeric alphanumeric rfl
      have colon : b ≠ byte ':' := Bytes.ne_of_isAlphanumeric alphanumeric rfl
      simp [startLine, startsLabel, Bytes.isGap, space, tab, colon]
  simp only [Assembler.columns, first, starts, free, second, Bool.not_false, Bool.and_self,
    ↓reduceIte]

/-- The line is one line, with no carriage return. -/
theorem mem_startLine {b : UInt8} (named : assembler.isProgramName name = true)
    (member : b ∈ startLine name load) : b ≠ byte '\n' ∧ b ≠ byte '\r' := by
  simp only [Assembler.isProgramName, Bool.and_eq_true, beq_iff_eq] at named
  obtain ⟨_, letters⟩ := Token.letters_of_label named.1.1
  have word : ∀ b, Bytes.isAlphanumeric b = true → b ≠ byte '\n' ∧ b ≠ byte '\r' :=
    fun b alphanumeric => ⟨Bytes.ne_of_isAlphanumeric alphanumeric rfl,
      Bytes.ne_of_isAlphanumeric alphanumeric rfl⟩
  rcases List.mem_append.1 member with early | digit
  · rcases List.mem_append.1 early with letter | between
    · exact word b (letters b letter)
    · have checked : (ascii " START ").all (fun b => b != byte '\n' && b != byte '\r') = true := by
        decide
      simpa using List.all_eq_true.1 checked b between
  · exact word b (by simp [Bytes.isAlphanumeric, Numeral.isDigit_of_mem_digits digit])

end StartLine

/-! ### Lines -/

theorem Lines.pieces_of_plain {line : Bytes} (plain : ∀ b ∈ line, b ≠ byte '\n') :
    pieces isLineFeed line = [line] :=
  pieces_of_free fun b member => by simpa [isLineFeed] using plain b member

/-- The runs of a text that starts with one line. -/
theorem pieces_append {line : Bytes} (plain : ∀ b ∈ line, b ≠ byte '\n') (rest : Bytes) :
    pieces Lines.isLineFeed (line ++ byte '\n' :: rest) =
      line :: pieces Lines.isLineFeed rest := by
  rw [pieces_append_cons rfl, Lines.pieces_of_plain plain]
  rfl

namespace Lines

theorem runs_append {line : Bytes} (plain : ∀ b ∈ line, b ≠ byte '\n') (rest : Bytes) :
    runs (line ++ byte '\n' :: rest) = line :: runs rest := by
  have nonempty : pieces isLineFeed rest ≠ [] := pieces_ne_nil rest
  unfold runs
  dsimp only
  rw [pieces_append plain, List.getLast?_cons_of_ne_nil nonempty,
    List.dropLast_cons_of_ne_nil nonempty]
  split <;> rfl

theorem dropReturn_of_plain {line : Bytes} (plain : ∀ b ∈ line, b ≠ byte '\r') :
    dropReturn line = line := by
  unfold dropReturn
  rw [if_neg]
  intro last
  exact plain _ (List.mem_of_getLast? last) rfl

/-- The lines of a text that starts with one line, if none is too long. -/
theorem read_append {line : Bytes} (plain : ∀ b ∈ line, b ≠ byte '\n' ∧ b ≠ byte '\r')
    (rest : Bytes) (short : (read (line ++ byte '\n' :: rest)).tooLong = false) :
    (read (line ++ byte '\n' :: rest)).lines = line :: (read rest).lines := by
  have split := runs_append (fun b member => (plain b member).1) rest
  have kept := dropReturn_of_plain fun b member => (plain b member).2
  have fits : Lines.fits line = true := by
    simp only [read, split, List.all_cons, Bool.not_eq_false', Bool.and_eq_true] at short
    exact short.1
  simp only [read, split, List.takeWhile_cons, fits, ↓reduceIte, List.map_cons, kept]

theorem dropTrailing_of_plain {line : Bytes} (plain : ∀ b ∈ line, b ≠ byte '\r') :
    dropTrailing isCarriageReturn line = line := by
  have kept : line.reverse.dropWhile isCarriageReturn = line.reverse := by
    cases backward : line.reverse with
    | nil => rfl
    | cons b rest =>
      have member : b ∈ line := by
        rw [← List.mem_reverse, backward]
        exact List.mem_cons_self
      exact List.dropWhile_cons_of_neg (by simpa [isCarriageReturn] using plain b member)
  rw [dropTrailing, kept, List.reverse_reverse]

end Lines

/-! ### Reading -/

def loadOperand (load : Nat) : Operand := Operand.ofToken ⟨Numeral.digits 10 load, .number⟩

/-- A load address that is read as a number is the number that was written. -/
theorem loadOperand_value {load : Nat} (number : (loadOperand load).kind = .number) :
    (loadOperand load).value = load := by
  have digits : (Numeral.digits 10 load).all Bytes.isDigit = true :=
    List.all_eq_true.2 fun b member => Numeral.isDigit_of_mem_digits member
  simp only [loadOperand, Operand.ofToken, Operand.numberOf] at number ⊢
  cases read : Numeral.readInteger? (Numeral.digits 10 load) with
  | none =>
    rw [read] at number
    cases number
  | some value =>
    rw [read] at number
    obtain ⟨n, numeral, rfl⟩ := Numeral.readInteger?_of_digits digits read
    rw [Numeral.read?_digits] at numeral
    dsimp only at number ⊢
    split at number
    · rename_i small
      rw [if_pos small, Option.some.inj numeral]
    · cases number

namespace Pass

variable (p : Pass) (assembler : Assembler)

/-- START with a label and a load address begins the program, if no error is found. -/
theorem applyStart_of_clean {name : Bytes} {load : Nat} (fresh : p.context.started = false)
    (labelled : p.line.label = some name)
    (clean : (p.applyStart assembler (loadOperand load)).context.errors = 0) :
    (load : Int) ≤ Word.lastAddress ∧
      p.applyStart assembler (loadOperand load) = p.beginProgram name load := by
  unfold applyStart at clean ⊢
  rw [fresh, if_neg Bool.false_ne_true, labelled] at clean ⊢
  dsimp only at clean ⊢
  split at clean
  · rename_i fits
    have value := loadOperand_value fits.1
    rw [if_pos fits, value]
    exact ⟨value ▸ fits.2, rfl⟩
  · exact absurd clean (report_errors_ne p assembler rfl)

theorem finishLine_nil (unaddressed : p.line.addressed = false) :
    p.finishLine assembler [] = p := by
  have nothing : p.readTrailing assembler [] = p := rfl
  unfold finishLine
  rw [nothing]
  simp [unaddressed]

/-- The pass after the line that begins a program. -/
def begun (name : Bytes) (load : Nat) : Pass :=
  ((p.mapLine fun line => { line with label := some name }).setStatement
    (.directive .start (loadOperand load))).beginProgram name load

theorem readOperand_digits (load : Nat) (clean :
    (p.readOperand assembler (Numeral.digits 10 load)).2.2.context.errors = 0) :
    p.readOperand assembler (Numeral.digits 10 load) = (loadOperand load, [], p) := by
  have operand : (p.readOperand assembler (Numeral.digits 10 load)).1 = loadOperand load := by
    simp only [readOperand, next_digits]
    rfl
  have wellFormed := readOperand_wellFormed p assembler (Numeral.digits 10 load) clean
  rw [operand, loadOperand] at wellFormed
  simp only [readOperand, next_digits, wellFormed, reduceCtorEq, ↓reduceIte]
  rfl

/-- The line that begins a program is read as what was written. -/
theorem readCommand_startLine {name : Bytes} {load : Nat}
    (named : assembler.isProgramName name = true) (unaddressed : p.line.addressed = false)
    (fresh : p.context.started = false) (source : p.line.source = startLine name load)
    (isStart : assembler.isStart p.line.source = true)
    (clean : (p.readCommand assembler).context.errors = 0) :
    (load : Int) ≤ Word.lastAddress ∧ p.readCommand assembler = p.begun name load := by
  have columns := columns_startLine load named
  rw [← source] at columns
  have command : assembler.command? ⟨ascii "START", .label⟩ = some (.directive .start) := by
    have looked : assembler.directives.lookup? (ascii "START") = some .start := by
      simpa [Assembler.isStart, columns] using isStart
    have group : assembler.opcodes.group? (ascii "START") = none := by
      have none : Group.parse? (ascii "START") = none := by decide +kernel
      rw [Opcodes.group?, none]
      rfl
    simp only [Assembler.command?, ↓reduceIte, group, looked, Option.map_some]
  simp only [Assembler.isProgramName, Bool.and_eq_true] at named
  have labelled : p.readLabel assembler (some ⟨name, .label⟩) =
      p.mapLine fun line => { line with label := some name } := by
    simp [readLabel, named.1.2]
  rw [readCommand_directive columns command, labelled] at clean ⊢
  dsimp only at clean ⊢
  generalize heading : (p.mapLine fun line => { line with label := some name }) = q at clean ⊢
  have none := errors_of_finishLine clean
  have stated : Follows (q.readOperand assembler (Numeral.digits 10 load)).2.2
      ((q.readOperand assembler (Numeral.digits 10 load)).2.2.setStatement (.directive .start
        (q.readOperand assembler (Numeral.digits 10 load)).1)) := .silent rfl
  have before : (q.readOperand assembler (Numeral.digits 10 load)).2.2.context.errors ≤
      (q.readDirective assembler .start (Numeral.digits 10 load)).1.context.errors :=
    (stated.trans (applyDirective_follows _ assembler .start _)).errors_le
  have read := readOperand_digits q assembler load (by omega)
  have applied : (q.readDirective assembler .start (Numeral.digits 10 load)) =
      ((q.setStatement (.directive .start (loadOperand load))).applyStart assembler
        (loadOperand load), []) := by
    simp only [readDirective, read]
    rfl
  rw [applied] at none ⊢
  subst heading
  obtain ⟨fits, begins⟩ := applyStart_of_clean ((p.mapLine fun line =>
    { line with label := some name }).setStatement (.directive .start (loadOperand load)))
    assembler fresh rfl none
  refine ⟨fits, ?_⟩
  rw [begins]
  exact finishLine_nil _ assembler unaddressed

end Pass

/-- The reading after the line that begins a program. -/
theorem Reading.ofLines_startLine {assembler : Assembler} {name : Bytes} {load : Nat}
    (named : assembler.isProgramName name = true)
    (clean : (ofLines assembler [startLine name load]).context.errors = 0) :
    (load : Int) ≤ Word.lastAddress ∧
      ofLines assembler [startLine name load] =
        afterPass (((initial.fresh (startLine name load, 1)).begun name load).noteLine assembler)
          [] := by
  have source : (initial.fresh (startLine name load, 1)).line.source = startLine name load :=
    Lines.dropTrailing_of_plain fun b member => (mem_startLine load named member).2
  rw [ofLines_singleton, afterPass, Pass.noteLine_context] at clean
  rw [ofLines_singleton]
  have read : initial.stepped assembler (startLine name load, 1) =
      (initial.fresh (startLine name load, 1)).begun name load ∧
      (load : Int) ≤ Word.lastAddress := by
    unfold stepped at clean ⊢
    generalize pass : initial.fresh (startLine name load, 1) = p at source clean ⊢
    have number : p.line.number = 1 := by rw [← pass]; rfl
    have unended : p.context.ended = false := by rw [← pass]; rfl
    unfold Pass.readLine at clean ⊢
    split at clean
    · exact absurd clean (Pass.report_errors_ne p assembler rfl)
    · rename_i isStart
      have isStart : assembler.isStart p.line.source = true := by simpa [number] using isStart
      obtain ⟨filled, uncommented⟩ := Assembler.kind_of_isStart isStart
      have nonblank := Assembler.isBlank_of_kind filled uncommented
      simp only [unended, nonblank, isStart, number] at clean ⊢
      obtain ⟨fits, begins⟩ := Pass.readCommand_startLine p assembler named (by rw [← pass]; rfl)
        (by rw [← pass]; rfl) source isStart clean
      exact ⟨begins, fits⟩
  rw [read.1]
  exact ⟨read.2, rfl⟩

end WordAssembler

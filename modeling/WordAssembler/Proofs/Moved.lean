import WordAssembler.Proofs.Clean

/-!
Two first passes over the same lines, at load addresses some distance apart. A line that has no
RESET and no equate of an expression does the same in both, at locations that distance apart, as
long as the later program fits in memory.
-/

set_option autoImplicit false

namespace WordAssembler

namespace Symbol

/-- The symbol of the program loaded some distance further. -/
def moved (distance : Int) (symbol : Symbol) : Symbol :=
  { symbol with location := symbol.location.map (· + distance) }

variable {distance : Int}

@[simp] theorem moved_isLocated (symbol : Symbol) :
    (symbol.moved distance).isLocated = symbol.isLocated := by
  simp [moved, isLocated]

@[simp] theorem moved_isLocal (symbol : Symbol) :
    (symbol.moved distance).isLocal = symbol.isLocal := by
  unfold isLocal
  rw [moved_isLocated]
  rfl

theorem place_moved (symbol : Symbol) (symbols : List Symbol) :
    (place symbol symbols).map (moved distance) =
      place (symbol.moved distance) (symbols.map (moved distance)) := by
  induction symbols with
  | nil => rfl
  | cons head rest ih =>
    have label (symbol : Symbol) : (symbol.moved distance).label = symbol.label := rfl
    simp only [place, List.map_cons, label]
    split
    · rfl
    · split
      · rfl
      · rw [List.map_cons, ih]

namespace Table

/-- The symbols of the program loaded some distance further. -/
def moved (distance : Int) (table : Table) : Table where
  symbols := table.symbols.map (Symbol.moved distance)
  ascending := List.pairwise_map.2 table.ascending

variable (table : Table) (symbol : Symbol) (label : Bytes)

theorem ext_symbols {first second : Table} (same : first.symbols = second.symbols) :
    first = second := by
  cases first
  cases second
  cases same
  rfl

@[simp] theorem get?_moved :
    (table.moved distance).get? label = (table.get? label).map (Symbol.moved distance) := by
  simp only [get?, moved, List.find?_map]
  rfl

@[simp] theorem contains_moved : (table.moved distance).contains label = table.contains label := by
  simp [contains]

theorem insert_moved :
    (table.insert symbol).moved distance = (table.moved distance).insert (symbol.moved distance) :=
  ext_symbols (place_moved symbol table.symbols)

theorem extend_moved :
    (table.extend symbol).moved distance =
      (table.moved distance).extend (symbol.moved distance) := by
  have label : (symbol.moved distance).label = symbol.label := rfl
  unfold extend
  rw [label, contains_moved]
  split
  · rfl
  · exact insert_moved table symbol

end Table

end Symbol

def Context.moved (distance : Int) (context : Context) : Context :=
  { context with location := context.location + distance, start := context.start + distance }

def Line.moved (distance : Int) (line : Line) : Line :=
  { line with location := line.location + distance }

/-- A statement that moves with its program: it neither sets the location counter nor fixes an
address. -/
def Statement.Plain : Statement → Prop
  | .instruction said => said.relocations = 0
  | .directive command operand => command ≠ .reset ∧
    (command = .adc ∨ command = .adce → operand.text.head? ≠ some (byte '+'))
  | .invalidated => True

namespace Pass

/-- Two passes at the same line of programs some distance apart, where no symbol depends on the load
address but by its location. -/
structure Moved (distance : Int) (p q : Pass) : Prop where
  context : q.context = p.context.moved distance
  symbols : q.symbols = p.symbols.moved distance
  line : q.line = p.line.moved distance
  fatal : q.fatal = p.fatal
  flat : ∀ symbol ∈ p.symbols.symbols, symbol.relocations = 0
  plain : ∀ statement, p.line.statement = some statement → statement.Plain

variable {distance : Int} {p q : Pass} (moved : Moved distance p q) (assembler : Assembler)
include moved

theorem Moved.location : q.context.location = p.context.location + distance := by
  rw [moved.context]
  rfl

theorem Moved.label : q.line.label = p.line.label := by
  rw [moved.line]
  rfl

theorem Moved.source : q.line.source = p.line.source := by
  rw [moved.line]
  rfl

/-- Work on the lines alone. -/
theorem Moved.mapLine (change : Line → Line)
    (same : ∀ line, change (line.moved distance) = (change line).moved distance)
    (statement : ∀ line, (change line).statement = line.statement) :
    Moved distance (p.mapLine change) (q.mapLine change) := by
  refine ⟨moved.context, moved.symbols, ?_, moved.fatal, moved.flat, ?_⟩
  · simp only [Pass.mapLine, moved.line, same]
  · simp only [Pass.mapLine, statement]
    exact moved.plain

theorem Moved.setComment (comment : Option Bytes) :
    Moved distance (p.setComment comment) (q.setComment comment) :=
  moved.mapLine _ (fun _ => rfl) fun _ => rfl

theorem Moved.setWord (word : Word) : Moved distance (p.setWord word) (q.setWord word) :=
  moved.mapLine _ (fun _ => rfl) fun _ => rfl

theorem Moved.setStatement {statement : Statement} (plain : statement.Plain) :
    Moved distance (p.setStatement statement) (q.setStatement statement) := by
  refine ⟨moved.context, moved.symbols, ?_, moved.fatal, moved.flat, ?_⟩
  · simp only [Pass.setStatement, Pass.mapLine, moved.line]
    rfl
  · rintro _ ⟨⟩
    exact plain

theorem Moved.invalidate : Moved distance p.invalidate q.invalidate := by
  refine ⟨moved.context, moved.symbols, ?_, moved.fatal, moved.flat, ?_⟩
  · simp only [Pass.invalidate, Pass.mapLine, moved.line]
    rfl
  · rintro _ ⟨⟩
    trivial

theorem Moved.report (key : Key) :
    Moved distance (p.report assembler key) (q.report assembler key) := by
  refine ⟨?_, ?_, ?_, ?_, ?_, ?_⟩
  · rw [report_context, report_context, moved.context]
    rfl
  · rw [report_symbols, report_symbols, moved.symbols]
  · rw [report_line, report_line, moved.line]
    rfl
  · rw [report_fatal, report_fatal, moved.line, moved.fatal]
    rfl
  · rw [report_symbols]
    exact moved.flat
  · rw [report_line]
    exact moved.plain

theorem Moved.fail (key : Key) : Moved distance (p.fail assembler key) (q.fail assembler key) :=
  (moved.report assembler key).invalidate

/-! ### Labels and words -/

/-- New symbols at locations as far apart. -/
theorem Moved.withSymbols {first second : Symbol.Table} (same : second = first.moved distance)
    (flat : ∀ symbol ∈ first.symbols, symbol.relocations = 0) :
    Moved distance { p with symbols := first } { q with symbols := second } :=
  ⟨moved.context, same, moved.line, moved.fatal, flat, moved.plain⟩

theorem Moved.extend (symbol : Symbol) (flat : symbol.relocations = 0) :
    Moved distance { p with symbols := p.symbols.extend symbol }
      { q with symbols := q.symbols.extend (symbol.moved distance) } := by
  refine moved.withSymbols ?_ ?_
  · rw [moved.symbols, Symbol.Table.extend_moved]
  · intro other member
    unfold Symbol.Table.extend at member
    split at member
    · exact moved.flat other member
    · rcases Symbol.Table.mem_insert member with rfl | old
      · exact flat
      · exact moved.flat other old

theorem Moved.insert (symbol : Symbol) (flat : symbol.relocations = 0) :
    Moved distance { p with symbols := p.symbols.insert symbol }
      { q with symbols := q.symbols.insert (symbol.moved distance) } := by
  refine moved.withSymbols ?_ ?_
  · rw [moved.symbols, Symbol.Table.insert_moved]
  · intro other member
    rcases Symbol.Table.mem_insert member with rfl | old
    · exact flat
    · exact moved.flat other old

theorem Moved.readLabel (column : Option Token) :
    Moved distance (p.readLabel assembler column) (q.readLabel assembler column) := by
  unfold Pass.readLabel
  split
  · exact moved
  · split
    · exact moved.report assembler _
    · split
      · exact moved.report assembler _
      · exact moved.mapLine _ (fun _ => rfl) fun _ => rfl

theorem Moved.defineLabel (label : Bytes) (location : Int) :
    Moved distance (p.defineLabel assembler label location)
      (q.defineLabel assembler label (location + distance)) := by
  unfold Pass.defineLabel
  rw [moved.symbols, Symbol.Table.get?_moved]
  cases found : p.symbols.get? label with
  | none =>
    dsimp only [Option.map_none]
    rw [← moved.symbols]
    exact moved.extend ⟨label, some location, .label, 0, 0⟩ rfl
  | some symbol =>
    have usage : (symbol.moved distance).usage = symbol.usage := rfl
    dsimp only [Option.map_some]
    rw [usage, Symbol.moved_isLocated]
    split
    · rw [← moved.symbols]
      exact moved.insert { symbol with location := some location }
        (moved.flat symbol (Symbol.Table.mem_of_get? found))
    · exact moved.report assembler _

theorem Moved.defineOwnLabel :
    Moved distance (p.defineOwnLabel assembler) (q.defineOwnLabel assembler) := by
  unfold Pass.defineOwnLabel
  rw [moved.label, moved.location]
  split
  · exact moved.defineLabel assembler _ _
  · exact moved

/-- A line is given a word at both places, if the program fits in memory at the further one. -/
theorem Moved.allocate {next : Pass → Pass} (forward : 0 ≤ distance)
    (same : ∀ {p q : Pass}, Moved distance p q → Moved distance (next p) (next q))
    (clean : (q.allocate assembler next).context.errors = 0) :
    Moved distance (p.allocate assembler next) (q.allocate assembler next) := by
  have location := moved.location
  have occupied : Moved distance p.occupy q.occupy := by
    refine ⟨?_, moved.symbols, ?_, moved.fatal, moved.flat, moved.plain⟩
    · simp only [occupy, moved.context, Context.moved]
      congr 1
      omega
    · simp only [occupy, moved.line, moved.location]
      rfl
  unfold Pass.allocate at clean ⊢
  split at clean
  · exact absurd clean (report_errors_ne q assembler rfl)
  · rename_i room
    rw [if_neg room, if_neg (by omega)]
    exact same occupied

/-! ### Operands and instructions -/

theorem Moved.readOperand (rest : Bytes) :
    (q.readOperand assembler rest).1 = (p.readOperand assembler rest).1 ∧
      (q.readOperand assembler rest).2.1 = (p.readOperand assembler rest).2.1 ∧
      Moved distance (p.readOperand assembler rest).2.2 (q.readOperand assembler rest).2.2 := by
  refine ⟨rfl, rfl, ?_⟩
  have commented : Moved distance
      (if (Token.next rest).1.kind = .comment then p.setComment (some (Token.next rest).1.text)
        else p)
      (if (Token.next rest).1.kind = .comment then q.setComment (some (Token.next rest).1.text)
        else q) := by
    split
    · exact moved.setComment _
    · exact moved
  unfold Pass.readOperand
  dsimp only
  split
  · exact commented.report assembler _
  · exact commented

theorem Moved.readTrailing (rest : Bytes) :
    Moved distance (p.readTrailing assembler rest) (q.readTrailing assembler rest) := by
  unfold Pass.readTrailing
  dsimp only
  split
  · exact moved
  · exact moved.setComment _
  · exact moved.report assembler _

theorem Moved.finishLine (rest : Bytes) :
    Moved distance (p.finishLine assembler rest) (q.finishLine assembler rest) := by
  have trailing := moved.readTrailing assembler rest
  unfold Pass.finishLine
  rw [moved.fatal]
  split
  · exact moved
  · have line : ∀ line : Line, ((line.moved distance).addressed &&
        (line.moved distance).has .serious && !(line.moved distance).isInvalidated) =
        (line.addressed && line.has .serious && !line.isInvalidated) := fun _ => rfl
    dsimp only
    rw [trailing.line, line]
    split
    · exact trailing.invalidate
    · exact trailing

theorem Moved.substitute (instruction : Instruction) :
    q.substitute instruction = p.substitute instruction := by
  unfold Pass.substitute
  rw [moved.symbols, Symbol.Table.get?_moved]
  cases p.symbols.get? instruction.operand.text <;> rfl

theorem Moved.substitute_plain {instruction : Instruction}
    (plain : (Statement.instruction instruction).Plain) :
    (Statement.instruction (p.substitute instruction)).Plain := by
  unfold Pass.substitute
  split
  · split
    · rename_i symbol found
      split
      · exact moved.flat symbol (Symbol.Table.mem_of_get? found)
      · exact plain
    · exact plain
  · exact plain

theorem Moved.encodeLine {instruction : Instruction}
    (plain : (Statement.instruction instruction).Plain) :
    Moved distance (p.encodeLine assembler instruction) (q.encodeLine assembler instruction) := by
  have stated := moved.setStatement (moved.substitute_plain plain)
  unfold Pass.encodeLine
  split
  · exact moved.fail assembler _
  · split
    · exact moved.invalidate
    · dsimp only
      rw [moved.substitute]
      split
      · exact stated.setWord _
      · exact stated.fail assembler _

theorem Moved.readFunction (group : Group) (rest : Bytes) :
    (q.readFunction assembler group rest).1 = (p.readFunction assembler group rest).1 ∧
      (q.readFunction assembler group rest).2.1 = (p.readFunction assembler group rest).2.1 ∧
      Moved distance (p.readFunction assembler group rest).2.2
        (q.readFunction assembler group rest).2.2 := by
  unfold Pass.readFunction
  dsimp only
  split
  · exact ⟨rfl, rfl, moved.setComment _⟩
  · exact ⟨rfl, rfl, (moved.readOperand assembler _).2.2⟩

theorem Moved.readInstruction (forward : 0 ≤ distance) (group : Group) (rest : Bytes)
    (clean : (q.readInstruction assembler group rest).1.context.errors = 0) :
    (q.readInstruction assembler group rest).2 = (p.readInstruction assembler group rest).2 ∧
      Moved distance (p.readInstruction assembler group rest).1
        (q.readInstruction assembler group rest).1 := by
  obtain ⟨same, after, read⟩ := moved.readFunction assembler group rest
  have plain : (Statement.instruction (p.readFunction assembler group rest).1).Plain := by
    unfold Pass.readFunction
    dsimp only
    split <;> rfl
  refine ⟨after, ?_⟩
  unfold Pass.readInstruction at clean ⊢
  dsimp only at clean ⊢
  rw [same] at clean ⊢
  exact ((read.setStatement plain).defineOwnLabel assembler).allocate assembler forward
    (fun moved => moved.encodeLine assembler plain) clean

/-! ### Directives -/

theorem Moved.ignoreLabel : Moved distance (p.ignoreLabel assembler) (q.ignoreLabel assembler) := by
  unfold Pass.ignoreLabel
  rw [moved.label]
  split
  · exact moved.report assembler _
  · exact moved

theorem Moved.applyStart (operand : Operand) (started : p.context.started = true) :
    Moved distance (p.applyStart assembler operand) (q.applyStart assembler operand) := by
  have begun : q.context.started = true := by
    rw [moved.context]
    exact started
  unfold Pass.applyStart
  rw [if_pos started, if_pos begun]
  exact moved.report assembler _

theorem Moved.applyEnd (operand : Operand) :
    Moved distance (p.applyEnd assembler operand) (q.applyEnd assembler operand) := by
  have ignored := moved.ignoreLabel assembler
  have program : (q.ignoreLabel assembler).context.program =
      (p.ignoreLabel assembler).context.program := by
    rw [ignored.context]
    rfl
  unfold Pass.applyEnd
  dsimp only
  rw [program]
  split
  · refine ⟨?_, ignored.symbols, ignored.line, ignored.fatal, ignored.flat, ignored.plain⟩
    simp only [mapContext, ignored.context]
    rfl
  · exact ignored.report assembler _

/-- An equate to a number or a literal. -/
theorem Moved.applyEquate {directive : Directive} {operand : Operand}
    (plain : ∀ value, (Statement.directive directive { operand with value := value }).Plain)
    (numeric : operand.kind.isNumeric = true ∨ operand.kind = .malformed) :
    Moved distance (p.applyEquate assembler directive operand)
      (q.applyEquate assembler directive operand) := by
  unfold Pass.applyEquate
  rw [moved.label, moved.symbols]
  split
  · exact moved.report assembler _
  · rename_i name named
    rw [Symbol.Table.contains_moved]
    split
    · exact moved.report assembler _
    · split
      · split
        · have stated := moved.setStatement (plain operand.value)
          unfold Pass.equate
          dsimp only
          have extended := stated.extend
            ⟨name, some p.context.location, .equated, operand.value, 0⟩ rfl
          simp only [Symbol.moved, Option.map_some, ← moved.location] at extended
          exact extended
        · exact moved.report assembler _
      · rename_i other
        rcases numeric with number | malformed
        · exact absurd number other
        · rw [malformed]
          exact moved

theorem Moved.applyEntry (operand : Operand) :
    Moved distance (p.applyEntry assembler operand) (q.applyEntry assembler operand) := by
  have ignored := moved.ignoreLabel assembler
  unfold Pass.applyEntry
  dsimp only
  split
  · rw [ignored.symbols, Symbol.Table.get?_moved]
    cases found : (p.ignoreLabel assembler).symbols.get? operand.text with
    | none =>
      dsimp only [Option.map_none]
      rw [← ignored.symbols]
      exact ignored.extend ⟨operand.text, none, .entry, 0, 0⟩ rfl
    | some symbol =>
      have usage : (symbol.moved distance).usage = symbol.usage := rfl
      dsimp only [Option.map_some]
      rw [usage]
      split
      · rw [← ignored.symbols]
        exact ignored.insert { symbol with usage := .entry }
          (ignored.flat symbol (Symbol.Table.mem_of_get? found))
      · exact ignored
      · exact ignored.report assembler _
  · exact ignored.report assembler _

theorem Moved.applyExternal (operand : Operand) :
    Moved distance (p.applyExternal assembler operand) (q.applyExternal assembler operand) := by
  have ignored := moved.ignoreLabel assembler
  unfold Pass.applyExternal
  dsimp only
  split
  · rw [ignored.symbols, Symbol.Table.contains_moved]
    split
    · exact ignored.report assembler _
    · rw [← ignored.symbols]
      exact ignored.extend ⟨operand.text, none, .external, 0, 0⟩ rfl
  · exact ignored.report assembler _

section Word

variable (forward : 0 ≤ distance) (operand : Operand)
include forward

theorem Moved.applyData (clean : (q.applyData assembler operand).context.errors = 0) :
    Moved distance (p.applyData assembler operand) (q.applyData assembler operand) := by
  refine (moved.defineOwnLabel assembler).allocate assembler forward (fun moved => ?_) clean
  split
  · exact moved.setWord _
  · split
    · exact moved
    · exact moved.report assembler _

theorem Moved.applyConstant (clean : (q.applyConstant assembler operand).context.errors = 0) :
    Moved distance (p.applyConstant assembler operand) (q.applyConstant assembler operand) := by
  refine (moved.defineOwnLabel assembler).allocate assembler forward (fun moved => ?_) clean
  split
  · exact moved.report assembler _
  · exact moved

theorem Moved.applyIdle (clean : (q.applyIdle assembler operand).context.errors = 0) :
    Moved distance (p.applyIdle assembler operand) (q.applyIdle assembler operand) := by
  refine (moved.defineOwnLabel assembler).allocate assembler forward (fun moved => ?_) clean
  dsimp only
  split
  · exact moved.setWord _
  · exact (moved.setWord _).report assembler _

end Word

end Pass

/-- What a directive takes as its operand if it is to move with its program: RESET does not, an
equate takes a number or a literal, and an address constant no mark. -/
def Directive.takesMovable (directive : Directive) (operand : Token) : Bool :=
  match directive with
  | .reset => false
  | .equ | .eque => operand.kind == .number || operand.kind == .literal
  | .adc | .adce => operand.text.head? != some (byte '+')
  | _ => true

def Assembler.isMovable (assembler : Assembler) (source : Bytes) : Bool :=
  match assembler.command? (assembler.columns source).command with
  | some (.directive directive) =>
    directive.takesMovable (Token.next (assembler.columns source).rest).1
  | _ => true

theorem Operand.isNumeric_or_malformed {token : Token}
    (numeric : token.kind = .number ∨ token.kind = .literal) :
    (Operand.ofToken token).kind.isNumeric = true ∨ (Operand.ofToken token).kind = .malformed := by
  rcases numeric with number | literal
  · simp only [ofToken, number]
    rcases numberOf_kind token.text with number | malformed
    · exact Or.inl (by simp [Kind.isNumeric, number])
    · exact Or.inr malformed
  · simp only [ofToken, literal]
    rcases literalOf_kind token.text with literal | malformed
    · exact Or.inl (by simp [Kind.isNumeric, literal])
    · exact Or.inr malformed

theorem Directive.plain_of_movable {directive : Directive} {token : Token}
    (movable : directive.takesMovable token = true) (value : Int) :
    (Statement.directive directive { Operand.ofToken token with value := value }).Plain := by
  refine ⟨?_, ?_⟩
  · rintro rfl
    cases movable
  · intro constant
    have text : (Operand.ofToken token).text = token.text ∨ (Operand.ofToken token).text = [] := by
      unfold Operand.ofToken
      split <;> first | exact Or.inl rfl | exact Or.inr rfl
    have unmarked : token.text.head? ≠ some (byte '+') := by
      rcases constant with rfl | rfl <;> simpa [takesMovable] using movable
    rcases text with same | empty
    · exact same ▸ unmarked
    · simp [empty]

namespace Pass

variable {distance : Int} {p q : Pass} (moved : Moved distance p q) (assembler : Assembler)
  (forward : 0 ≤ distance) (started : p.context.started = true)
include moved forward started

/-- A directive that moves with its program does the same at both places. -/
theorem Moved.applyDirective {directive : Directive} {token : Token}
    (movable : directive.takesMovable token = true)
    (clean : (q.applyDirective assembler directive (Operand.ofToken token)).context.errors = 0) :
    Moved distance (p.applyDirective assembler directive (Operand.ofToken token))
      (q.applyDirective assembler directive (Operand.ofToken token)) := by
  have equate : directive = .equ ∨ directive = .eque →
      Moved distance (p.applyEquate assembler directive (Operand.ofToken token))
        (q.applyEquate assembler directive (Operand.ofToken token)) := by
    intro isEquate
    refine moved.applyEquate assembler (Directive.plain_of_movable movable)
      (Operand.isNumeric_or_malformed ?_)
    rcases isEquate with rfl | rfl <;> simpa [Directive.takesMovable] using movable
  cases directive with
  | start => exact moved.applyStart assembler _ started
  | finish => exact moved.applyEnd assembler _
  | equ => exact equate (Or.inl rfl)
  | eque => exact equate (Or.inr rfl)
  | adc => exact moved.applyConstant assembler forward _ clean
  | adce => exact moved.applyConstant assembler forward _ clean
  | entry => exact moved.applyEntry assembler _
  | extrn => exact moved.applyExternal assembler _
  | reset => cases movable
  | dat => exact moved.applyData assembler forward _ clean
  | nop => exact moved.applyIdle assembler forward _ clean

theorem Moved.readDirective {directive : Directive} {rest : Bytes}
    (movable : directive.takesMovable (Token.next rest).1 = true)
    (clean : (q.readDirective assembler directive rest).1.context.errors = 0) :
    Moved distance (p.readDirective assembler directive rest).1
      (q.readDirective assembler directive rest).1 := by
  obtain ⟨_, _, read⟩ := moved.readOperand assembler rest
  obtain ⟨added, remarks, _⟩ := readOperand_remarks p assembler rest
  refine (read.setStatement ?_).applyDirective assembler forward ?_ movable clean
  · exact Directive.plain_of_movable movable _
  · exact remarks.settles.program.started.trans started

omit forward started in
theorem Moved.readUnknown (columns : Columns) :
    Moved distance (p.readUnknown assembler columns) (q.readUnknown assembler columns) := by
  have commented : Moved distance
      (if columns.command.kind = .comment then p.setComment (some columns.command.text) else p)
      (if columns.command.kind = .comment then q.setComment (some columns.command.text)
        else q) := by
    split
    · exact moved.setComment _
    · exact moved
  have labelled := commented.defineOwnLabel assembler
  unfold Pass.readUnknown
  dsimp only
  generalize (if columns.command.kind = .comment then p.setComment (some columns.command.text)
    else p).defineOwnLabel assembler = first at labelled ⊢
  generalize (if columns.command.kind = .comment then q.setComment (some columns.command.text)
    else q).defineOwnLabel assembler = second at labelled ⊢
  rw [labelled.label]
  split
  · exact labelled
  · exact labelled.report assembler _

theorem Moved.readCommand (movable : assembler.isMovable p.line.source = true)
    (clean : (q.readCommand assembler).context.errors = 0) :
    Moved distance (p.readCommand assembler) (q.readCommand assembler) := by
  generalize split : assembler.columns p.line.source = columns
  have labelled := moved.readLabel assembler columns.label
  have begun : (p.readLabel assembler columns.label).context.started = true := by
    rw [← started]
    unfold Pass.readLabel
    repeat' split
    all_goals simp [Context.count]
  have same : assembler.columns q.line.source = columns := moved.source ▸ split
  cases command : assembler.command? columns.command with
  | none =>
    rw [readCommand_unknown split command, readCommand_unknown same command]
    exact labelled.readUnknown assembler columns
  | some known =>
    cases known with
    | group group =>
      rw [readCommand_group same command] at clean
      rw [readCommand_group split command, readCommand_group same command]
      obtain ⟨after, read⟩ := labelled.readInstruction assembler forward group columns.rest
        (errors_of_finishLine clean)
      rw [after]
      exact read.finishLine assembler _
    | directive directive =>
      rw [readCommand_directive same command] at clean
      rw [readCommand_directive split command, readCommand_directive same command]
      have takes : directive.takesMovable (Token.next columns.rest).1 = true := by
        simpa only [Assembler.isMovable, split, command] using movable
      have read := labelled.readDirective assembler forward begun takes
        (errors_of_finishLine clean)
      exact read.finishLine assembler _

/-- A line that moves with its program is read alike at both places. -/
theorem Moved.readLine (movable : assembler.isMovable p.line.source = true)
    (clean : (q.readLine assembler).context.errors = 0) :
    Moved distance (p.readLine assembler) (q.readLine assembler) := by
  have number : q.line.number = p.line.number := by
    rw [moved.line]
    rfl
  have ended : q.context.ended = p.context.ended := by
    rw [moved.context]
    rfl
  unfold Pass.readLine at clean ⊢
  rw [number, moved.source, ended] at clean ⊢
  split
  · exact moved.report assembler _
  · rename_i first
    rw [if_neg first] at clean
    split
    · exact moved.report assembler _
    · rename_i after
      rw [if_neg after] at clean
      split
      · unfold Pass.readBlank
        rw [moved.source]
        exact moved.setComment _
      · rename_i open_
        rw [if_neg open_] at clean
        exact moved.readCommand assembler forward started movable clean

end Pass

/-! ### Runs -/

/-- Two lines of programs some distance apart: either both have a word or none has, and the words
are the same so far. -/
structure Line.Moves (distance : Int) (first second : Line) : Prop where
  addressed : second.addressed = first.addressed
  location : first.addressed = true → second.location = first.location + distance
  statement : first.addressed = true → second.statement = first.statement
  word : first.addressed = true → second.word = first.word
  plain : ∀ statement, first.statement = some statement ∨ second.statement = some statement →
    statement.Plain

theorem Pass.Moved.lines {distance : Int} {p q : Pass} (moved : p.Moved distance q) :
    p.line.Moves distance q.line := by
  rw [moved.line]
  refine ⟨rfl, fun _ => rfl, fun _ => rfl, fun _ => rfl, ?_⟩
  rintro statement (first | second)
  · exact moved.plain statement first
  · exact moved.plain statement second

namespace Reading

/-- Two readings of programs some distance apart. -/
structure Moves (distance : Int) (first second : Reading) : Prop where
  context : second.context = first.context.moved distance
  symbols : second.symbols = first.symbols.moved distance
  fatal : second.fatal = first.fatal
  flat : ∀ symbol ∈ first.symbols.symbols, symbol.relocations = 0
  lines : List.Forall₂ (Line.Moves distance) first.lines second.lines

variable {assembler : Assembler} {distance : Int} {first second : Reading}

theorem Moves.fresh (moves : first.Moves distance second) (numbered : Bytes × Nat) :
    (first.fresh numbered).Moved distance (second.fresh numbered) := by
  have location : second.context.location = first.context.location + distance := by
    rw [moves.context]
    rfl
  refine ⟨moves.context, moves.symbols, ?_, moves.fatal, moves.flat, nofun⟩
  simp only [Reading.fresh, pass, Line.unread, Line.moved, location]

/-- A line that moves with its program keeps the readings apart. -/
theorem Moves.add (moves : first.Moves distance second) {numbered : Bytes × Nat}
    (forward : 0 ≤ distance) (started : first.context.started = true)
    (running : second.fatal = none)
    (movable : assembler.isMovable (dropTrailing Lines.isCarriageReturn numbered.1) = true)
    (clean : (Reading.add assembler second numbered).context.errors = 0) :
    (Reading.add assembler first numbered).Moves distance
      (Reading.add assembler second numbered) := by
  have runningFirst : first.fatal = none := moves.fatal.symm.trans running
  rw [add_context running] at clean
  have moved : (first.stepped assembler numbered).Moved distance
      (second.stepped assembler numbered) :=
    (moves.fresh numbered).readLine assembler forward started movable clean
  refine ⟨?_, ?_, ?_, ?_, ?_⟩
  · rw [add_context running, add_context runningFirst, moved.context]
  · rw [add_symbols running, add_symbols runningFirst, moved.symbols]
  · rw [add_fatal running, add_fatal runningFirst, moved.fatal]
  · rw [add_symbols runningFirst]
    exact moved.flat
  · rw [add_lines running, add_lines runningFirst]
    exact .cons moved.lines moves.lines

/-- Lines that move with their program keep the readings apart. -/
theorem moves_of_first {here there : Bytes} {more : List Bytes} (forward : 0 ≤ distance)
    (moves : (ofLines assembler [here]).Moves distance (ofLines assembler [there]))
    (started : (ofLines assembler [here]).context.started = true)
    (movable : ∀ source ∈ more,
      assembler.isMovable (dropTrailing Lines.isCarriageReturn source) = true)
    (running : (ofLines assembler (there :: more)).fatal = none)
    (clean : (ofLines assembler (there :: more)).context.errors = 0) :
    (ofLines assembler (here :: more)).Moves distance (ofLines assembler (there :: more)) := by
  induction more using List.reverseRecOn with
  | nil => exact moves
  | append_singleton more source ih =>
    rw [← List.cons_append] at running clean ⊢
    rw [← List.cons_append]
    have before := running_of_append assembler running
    have held := ih (fun other member => movable other (List.mem_append_left _ member)) before
      (errors_of_append clean)
    have begun : (ofLines assembler ([here] ++ more)).context.started = true :=
      ((layout_of_first started).extended more).1.started
    have length : (there :: more).length = (here :: more).length := rfl
    rw [ofLines_concat, length] at clean
    rw [ofLines_concat, ofLines_concat, length]
    exact held.add forward begun before
      (movable source (List.mem_append_right _ List.mem_cons_self)) clean

end Reading

end WordAssembler

import WordAssembler.Proofs.Clean
import WordAssembler.Proofs.Statements

/-!
The symbols of a program while its source is read. A line enters one symbol at most, and what it
enters is told by its source: a label, the name of the program, an equate, an entry or an external
symbol. A symbol that is known keeps its value; a label may become an entry, and an entry without an
address may get one.
-/

set_option autoImplicit false

namespace WordAssembler

open Expression

/-! ### What a symbol may become -/

/-- What a symbol may become while more lines are read. -/
structure Symbol.Evolves (before after : Symbol) : Prop where
  label : after.label = before.label
  value : after.value = before.value
  relocations : after.relocations = before.relocations
  location : after.location = before.location ∨ before.location = none ∧ after.usage = .entry
  usage : after.usage = before.usage ∨ before.usage = .label ∧ after.usage = .entry

namespace Symbol.Evolves

variable {first second third : Symbol}

theorem refl (symbol : Symbol) : symbol.Evolves symbol :=
  ⟨rfl, rfl, rfl, Or.inl rfl, Or.inl rfl⟩

theorem entry (evolves : first.Evolves second) (entry : first.usage = .entry) :
    second.usage = .entry := by
  rcases evolves.usage with same | ⟨_, later⟩
  · exact same.trans entry
  · exact later

theorem located (evolves : first.Evolves second) {address : Int}
    (located : first.location = some address) : second.location = some address := by
  rcases evolves.location with same | ⟨absent, _⟩
  · exact same.trans located
  · rw [located] at absent
    cases absent

/-- An equated symbol stays as it is. -/
theorem eq_of_equated (evolves : first.Evolves second) (equated : first.usage = .equated) :
    second = first := by
  have usage : second.usage = first.usage := by
    rcases evolves.usage with same | ⟨label, _⟩
    · exact same
    · rw [equated] at label
      cases label
  have location : second.location = first.location := by
    rcases evolves.location with same | ⟨_, entry⟩
    · exact same
    · rw [usage, equated] at entry
      cases entry
  obtain ⟨label, value, relocations, _, _⟩ := evolves
  cases first
  cases second
  simp_all

theorem trans (left : first.Evolves second) (right : second.Evolves third) :
    first.Evolves third := by
  refine ⟨right.label.trans left.label, right.value.trans left.value,
    right.relocations.trans left.relocations, ?_, ?_⟩
  · rcases left.location with same | ⟨absent, became⟩
    · rw [← same]
      exact right.location
    · exact Or.inr ⟨absent, right.entry became⟩
  · rcases left.usage with same | ⟨label, became⟩
    · rw [← same]
      exact right.usage
    · exact Or.inr ⟨label, right.entry became⟩

end Symbol.Evolves

namespace Symbol.Table

/-- Every symbol of a table is in the other one, evolved. -/
def Extends (before after : Table) : Prop :=
  ∀ label symbol, before.get? label = some symbol →
    ∃ later, after.get? label = some later ∧ symbol.Evolves later

variable {table first second third next : Table} {location : Int}

theorem Extends.refl (table : Table) : table.Extends table :=
  fun _ symbol found => ⟨symbol, found, .refl symbol⟩

theorem Extends.trans (left : first.Extends second) (right : second.Extends third) :
    first.Extends third := by
  intro label symbol found
  obtain ⟨later, known, evolves⟩ := left label symbol found
  obtain ⟨last, there, onward⟩ := right label later known
  exact ⟨last, there, evolves.trans onward⟩

theorem extends_insert_of_absent {symbol : Symbol} (absent : table.get? symbol.label = none) :
    table.Extends (table.insert symbol) := by
  intro label known found
  exact ⟨known, (get?_insert_of_ne (ne_of_absent found absent)).trans found, .refl known⟩

theorem extends_insert_of_evolves {symbol later : Symbol}
    (found : table.get? symbol.label = some symbol) (evolves : symbol.Evolves later) :
    table.Extends (table.insert later) := by
  intro label known here
  by_cases same : later.label = label
  · obtain rfl := eq_of_found here found (evolves.label.symm.trans same)
    exact ⟨later, by rw [get?_insert, if_pos same], evolves⟩
  · exact ⟨known, (get?_insert_of_ne same).trans here, .refl known⟩

theorem extends_extend (table : Table) (symbol : Symbol) : table.Extends (table.extend symbol) := by
  cases found : table.get? symbol.label with
  | none =>
    rw [extend_of_absent found]
    exact extends_insert_of_absent found
  | some known =>
    rw [extend, if_pos (by simp [contains, found])]
    exact .refl table

theorem get?_insert_cases {symbol other : Symbol} {label : Bytes}
    (found : (table.insert symbol).get? label = some other) :
    symbol.label = label ∧ other = symbol ∨ table.get? label = some other := by
  rw [get?_insert] at found
  split at found
  · rename_i same
    exact Or.inl ⟨same, (Option.some.inj found).symm⟩
  · exact Or.inr found

theorem Declares.extends (declares : Declares location table next) : table.Extends next := by
  cases declares with
  | same => exact .refl table
  | promote symbol found label =>
    exact extends_insert_of_evolves found ⟨rfl, rfl, rfl, Or.inl rfl, Or.inr ⟨label, rfl⟩⟩
  | unlocated label usage absent _ => exact extends_insert_of_absent absent
  | equate symbol absent _ _ => exact extends_insert_of_absent absent

theorem Step.extends (step : Step location table next) : table.Extends next := by
  cases step with
  | declare declares => exact declares.extends
  | define label absent => exact extends_insert_of_absent absent
  | locate symbol found entry unlocated =>
    exact extends_insert_of_evolves found ⟨rfl, rfl, rfl, Or.inr ⟨unlocated, entry⟩, Or.inl rfl⟩

end Symbol.Table

theorem Pass.Advance.extends {p q : Pass} (advance : p.Advance q) :
    p.symbols.Extends q.symbols := by
  cases advance with
  | rest _ _ _ _ symbols => exact symbols.extends
  | word _ _ _ _ _ _ symbols => exact symbols.extends
  | skip _ _ _ _ _ _ _ symbols => exact symbols.extends
  | begin name load _ _ _ _ _ _ _ _ _ symbols =>
    rw [symbols]
    exact Symbol.Table.extends_extend _ _

/-! ### What a line enters -/

namespace Assembler

/-- The label that a source line has, if it is a name of 2 to 32 characters. -/
def label? (assembler : Assembler) (source : Bytes) : Option Bytes :=
  Pass.acceptedLabel (assembler.columns source).label

/-- The directive that a source line is written as, and its operand. -/
def directive? (assembler : Assembler) (source : Bytes) : Option (Directive × Operand) :=
  match assembler.command? (assembler.columns source).command with
  | some (.directive directive) =>
    some (directive, Operand.ofToken (Token.next (assembler.columns source).rest).1)
  | _ => none

theorem directive?_of_command {assembler : Assembler} {source : Bytes} {directive : Directive}
    (command : assembler.command? (assembler.columns source).command =
      some (.directive directive)) :
    assembler.directive? source =
      some (directive, Operand.ofToken (Token.next (assembler.columns source).rest).1) := by
  rw [Assembler.directive?, command]

theorem directive?_eq_some {assembler : Assembler} {source : Bytes} {directive : Directive}
    {operand : Operand} (said : assembler.directive? source = some (directive, operand)) :
    assembler.command? (assembler.columns source).command = some (.directive directive) ∧
      operand = Operand.ofToken (Token.next (assembler.columns source).rest).1 := by
  unfold directive? at said
  split at said
  · rename_i found command
    cases said
    exact ⟨command, rfl⟩
  · cases said

theorem kind_of_command? {assembler : Assembler} {token : Token} {command : Command}
    (found : assembler.command? token = some command) : token.kind = .label := by
  unfold command? at found
  split at found
  · assumption
  · cases found

/-- A label looks like a name. -/
theorem kindOf_of_label? {assembler : Assembler} {source label : Bytes}
    (named : assembler.label? source = some label) : Token.kindOf label = .label := by
  unfold label? at named
  rcases assembler.label_of_columns source with absent | first
  · rw [absent] at named
    cases named
  · rw [first, Pass.acceptedLabel] at named
    split at named
    · rename_i accepted
      have kind := @Token.next_kind source (by simp [accepted.1])
      rw [← Option.some.inj named, ← kind, accepted.1]
    · cases named

/-- A symbol in the operand column looks like a name. -/
theorem kindOf_of_symbol {assembler : Assembler} {source : Bytes} {directive : Directive}
    {operand : Operand} (said : assembler.directive? source = some (directive, operand))
    (symbol : operand.kind = .symbol) : Token.kindOf operand.text = .label := by
  obtain ⟨_, rfl⟩ := directive?_eq_some said
  exact Operand.kindOf_of_symbol symbol

end Assembler

/-- What an equate finds for its operand at a location: a number in memory, or the value of an
expression with some operators at most. -/
inductive Operand.Equates (known : Evaluator) (location limit : Int) (operand : Operand) :
    Evaluator.Equate → Prop
  | number (numeric : operand.kind.isNumeric = true) (inside : operand.value ≤ Word.lastAddress) :
      Equates known location limit operand ⟨operand.value, 0⟩
  | expression {found : Evaluator.Equate} (numberless : operand.kind.isNumeric = false)
      (value : known.equate operand.text location limit = .ok found) :
      Equates known location limit operand found

/-- What a source line that is read at a location can do to the symbols known before, and how the
line is written that does it. -/
inductive Enters (assembler : Assembler) (source : Bytes) (known : Evaluator) (location : Int) :
    Symbol.Table → Prop
  | nothing : Enters assembler source known location known.symbols
  | program (name : Bytes) (load : Int) (operand : Operand)
      (said : assembler.directive? source = some (.start, operand))
      (spelled : Token.kindOf name = .label) :
      Enters assembler source known location
        (known.symbols.extend ⟨name, some load, .programName, 0, 0⟩)
  | label (label : Bytes) (address : Int) (named : assembler.label? source = some label)
      (absent : known.symbols.get? label = none) :
      Enters assembler source known location
        (known.symbols.insert ⟨label, some address, .label, 0, 0⟩)
  | place (symbol : Symbol) (address : Int) (named : assembler.label? source = some symbol.label)
      (found : known.symbols.get? symbol.label = some symbol) (entry : symbol.usage = .entry)
      (unlocated : symbol.location = none) :
      Enters assembler source known location
        (known.symbols.insert { symbol with location := some address })
  | equate (label : Bytes) (directive : Directive) (operand : Operand) (found : Evaluator.Equate)
      (named : assembler.label? source = some label)
      (said : assembler.directive? source = some (directive, operand))
      (equates : directive = .equ ∨ directive = .eque)
      (absent : known.symbols.get? label = none)
      (value : operand.Equates known location directive.operatorLimit found) :
      Enters assembler source known location
        (known.symbols.insert ⟨label, some location, .equated, found.value, found.relocations⟩)
  | entry (operand : Operand) (said : assembler.directive? source = some (.entry, operand))
      (symbol : operand.kind = .symbol) (absent : known.symbols.get? operand.text = none) :
      Enters assembler source known location
        (known.symbols.insert ⟨operand.text, none, .entry, 0, 0⟩)
  | promote (operand : Operand) (symbol : Symbol)
      (said : assembler.directive? source = some (.entry, operand))
      (kind : operand.kind = .symbol) (found : known.symbols.get? operand.text = some symbol)
      (label : symbol.usage = .label) :
      Enters assembler source known location (known.symbols.insert { symbol with usage := .entry })
  | external (operand : Operand) (said : assembler.directive? source = some (.extrn, operand))
      (symbol : operand.kind = .symbol) (absent : known.symbols.get? operand.text = none) :
      Enters assembler source known location
        (known.symbols.insert ⟨operand.text, none, .external, 0, 0⟩)

namespace Pass

variable {p : Pass} {assembler : Assembler} {source : Bytes}

theorem enters_of_symbols {q : Pass} (same : q.symbols = p.symbols) :
    Enters assembler source p.evaluator p.context.location q.symbols := by
  rw [same]
  exact .nothing

section Label

variable (named : p.line.label = assembler.label? source)
include named

theorem defineLabel_enters {label : Bytes} (own : p.line.label = some label) (address : Int) :
    Enters assembler source p.evaluator p.context.location
      (p.defineLabel assembler label address).symbols := by
  have named := named.symm.trans own
  unfold defineLabel
  split
  · rename_i absent
    dsimp only
    rw [Symbol.Table.extend_of_absent absent]
    exact .label label address named absent
  · rename_i symbol found
    have same := Symbol.Table.label_of_get? found
    split
    · rename_i free
      exact .place symbol address (same ▸ named) (same ▸ found) free.1
        (by simpa [Symbol.isLocated] using free.2)
    · exact enters_of_symbols (report_symbols p assembler _)

theorem defineOwnLabel_enters : Enters assembler source p.evaluator p.context.location
    (p.defineOwnLabel assembler).symbols := by
  unfold defineOwnLabel
  split
  · rename_i label own
    exact defineLabel_enters named own _
  · exact .nothing

/-- The word of a line does not count. -/
theorem allocate_enters {next : Pass → Pass} (same : ∀ q, (next q).symbols = q.symbols) :
    Enters assembler source p.evaluator p.context.location
      ((p.defineOwnLabel assembler).allocate assembler next).symbols := by
  have labelled := defineOwnLabel_enters named
  unfold allocate
  split
  · rwa [report_symbols]
  · rwa [same]

theorem applyData_enters (operand : Operand) : Enters assembler source p.evaluator
    p.context.location (p.applyData assembler operand).symbols := by
  refine allocate_enters named fun q => ?_
  repeat' split
  all_goals simp

theorem applyConstant_enters (operand : Operand) : Enters assembler source p.evaluator
    p.context.location (p.applyConstant assembler operand).symbols := by
  refine allocate_enters named fun q => ?_
  split <;> simp

theorem applyIdle_enters (operand : Operand) : Enters assembler source p.evaluator
    p.context.location (p.applyIdle assembler operand).symbols := by
  refine allocate_enters named fun q => ?_
  dsimp only
  split <;> simp

theorem applyReset_enters (operand : Operand) : Enters assembler source p.evaluator
    p.context.location (p.applyReset assembler operand).symbols := by
  unfold applyReset
  split
  · exact enters_of_symbols (report_symbols p assembler _)
  · rename_i label own
    split
    · exact enters_of_symbols (report_symbols p assembler _)
    · split
      · exact enters_of_symbols (report_symbols p assembler _)
      · exact defineLabel_enters named own _

theorem applyEquate_enters {directive : Directive} {operand : Operand}
    (said : assembler.directive? source = some (directive, operand))
    (equates : directive = .equ ∨ directive = .eque) :
    Enters assembler source p.evaluator p.context.location
      (p.applyEquate assembler directive operand).symbols := by
  have entered : ∀ (q : Pass) (label : Bytes) (found : Evaluator.Equate),
      q.evaluator = p.evaluator → q.context.location = p.context.location →
      p.line.label = some label → p.symbols.get? label = none →
      operand.Equates p.evaluator p.context.location directive.operatorLimit found →
      Enters assembler source p.evaluator p.context.location
        (q.equate label directive operand found).symbols := by
    intro q label found same location own absent value
    have symbols : q.symbols = p.symbols := congrArg Evaluator.symbols same
    simp only [Pass.equate, setStatement, mapLine]
    rw [symbols, location, Symbol.Table.extend_of_absent absent]
    exact .equate label directive operand found (named.symm.trans own) said equates absent value
  unfold applyEquate
  split
  · exact enters_of_symbols (report_symbols p assembler _)
  · rename_i label own
    split
    · exact enters_of_symbols (report_symbols p assembler _)
    · rename_i known
      have absent : p.symbols.get? label = none :=
        Symbol.Table.contains_eq_false.1 (by simpa using known)
      split
      · rename_i numeric
        split
        · rename_i inside
          exact entered p label _ rfl rfl own absent (.number numeric inside)
        · exact enters_of_symbols (report_symbols p assembler _)
      · rename_i numberless
        have evaluated : ∀ entry : Bytes, Enters assembler source p.evaluator p.context.location
            ((p.note assembler entry).equateBy assembler label directive operand
              (p.evaluator.equate operand.text p.context.location
                directive.operatorLimit)).symbols := by
          intro entry
          unfold equateBy
          split
          · rename_i found value
            refine entered _ label found ?_ (by simp) own absent
              (.expression (by simpa using numberless) value)
            simp [Pass.evaluator]
          · exact enters_of_symbols (by simp)
        split
        · exact evaluated _
        · exact evaluated _
        · exact .nothing
        · exact enters_of_symbols (report_symbols p assembler _)

end Label

/-- Remarks on a line change nothing that its symbols depend on. -/
theorem Remarks.evaluator {q : Pass} {added : List Diagnostic} (remarks : Remarks p q added) :
    q.evaluator = p.evaluator := by
  rw [Pass.evaluator, remarks.symbols, remarks.settles.program.program]
  rfl

theorem applyEntry_enters {operand : Operand}
    (said : assembler.directive? source = some (.entry, operand)) :
    Enters assembler source p.evaluator p.context.location
      (p.applyEntry assembler operand).symbols := by
  obtain ⟨added, remarks⟩ := ignoreLabel_remarks p assembler
  rw [← remarks.evaluator, ← remarks.settles.counter]
  unfold applyEntry
  dsimp only
  split
  · rename_i symbol
    split
    · rename_i absent
      dsimp only
      rw [Symbol.Table.extend_of_absent absent]
      exact .entry operand said symbol absent
    · rename_i known found
      split
      · rename_i label
        exact .promote operand known said symbol found label
      · exact .nothing
      · exact enters_of_symbols (report_symbols _ assembler _)
  · exact enters_of_symbols (report_symbols _ assembler _)

theorem applyExternal_enters {operand : Operand}
    (said : assembler.directive? source = some (.extrn, operand)) :
    Enters assembler source p.evaluator p.context.location
      (p.applyExternal assembler operand).symbols := by
  obtain ⟨added, remarks⟩ := ignoreLabel_remarks p assembler
  rw [← remarks.evaluator, ← remarks.settles.counter]
  unfold applyExternal
  dsimp only
  split
  · rename_i symbol
    split
    · exact enters_of_symbols (report_symbols _ assembler _)
    · rename_i known
      have absent := Symbol.Table.contains_eq_false.1 (by simpa using known)
      dsimp only
      rw [Symbol.Table.extend_of_absent absent]
      exact .external operand said symbol absent
  · exact enters_of_symbols (report_symbols _ assembler _)

theorem applyStart_enters {operand : Operand} (named : p.line.label = assembler.label? source)
    (said : assembler.directive? source = some (.start, operand)) :
    Enters assembler source p.evaluator p.context.location
      (p.applyStart assembler operand).symbols := by
  unfold applyStart
  repeat' split
  · exact enters_of_symbols (report_symbols p assembler _)
  · rename_i symbol
    exact .program _ _ operand said (Assembler.kindOf_of_symbol said symbol.1)
  · exact enters_of_symbols (report_symbols p assembler _)
  · rename_i own _
    exact .program _ _ operand said (Assembler.kindOf_of_label? (named.symm.trans own))
  · exact enters_of_symbols (report_symbols p assembler _)

theorem applyEnd_enters (operand : Operand) : Enters assembler source p.evaluator
    p.context.location (p.applyEnd assembler operand).symbols := by
  obtain ⟨added, remarks⟩ := ignoreLabel_remarks p assembler
  unfold applyEnd
  dsimp only
  split
  · exact enters_of_symbols remarks.symbols
  · exact enters_of_symbols ((report_symbols _ assembler _).trans remarks.symbols)

theorem applyDirective_enters {directive : Directive} {operand : Operand}
    (named : p.line.label = assembler.label? source)
    (said : assembler.directive? source = some (directive, operand)) :
    Enters assembler source p.evaluator p.context.location
      (p.applyDirective assembler directive operand).symbols := by
  cases directive with
  | start => exact applyStart_enters named said
  | finish => exact applyEnd_enters operand
  | equ => exact applyEquate_enters named said (Or.inl rfl)
  | eque => exact applyEquate_enters named said (Or.inr rfl)
  | adc => exact applyConstant_enters named operand
  | adce => exact applyConstant_enters named operand
  | entry => exact applyEntry_enters said
  | extrn => exact applyExternal_enters said
  | reset => exact applyReset_enters named operand
  | dat => exact applyData_enters named operand
  | nop => exact applyIdle_enters named operand

theorem readDirective_enters {directive : Directive} {rest : Bytes}
    (named : p.line.label = assembler.label? source)
    (said : assembler.directive? source =
      some (directive, Operand.ofToken (Token.next rest).1)) :
    Enters assembler source p.evaluator p.context.location
      (p.readDirective assembler directive rest).1.symbols := by
  obtain ⟨added, remarks, _⟩ := readOperand_remarks p assembler rest
  let stated := (p.readOperand assembler rest).2.2.setStatement
    (.directive directive (p.readOperand assembler rest).1)
  have applied : Enters assembler source stated.evaluator stated.context.location
      (stated.applyDirective assembler directive (p.readOperand assembler rest).1).symbols :=
    applyDirective_enters (remarks.settles.label.trans named) said
  rw [show stated.evaluator = p.evaluator from remarks.evaluator,
    show stated.context.location = p.context.location from remarks.settles.counter] at applied
  exact applied

theorem readInstruction_enters {group : Group} {rest : Bytes}
    (named : p.line.label = assembler.label? source) :
    Enters assembler source p.evaluator p.context.location
      (p.readInstruction assembler group rest).1.symbols := by
  obtain ⟨added, remarks⟩ := readFunction_remarks p assembler group rest
  let stated := (p.readFunction assembler group rest).2.2.setStatement
    (.instruction (p.readFunction assembler group rest).1)
  have applied : Enters assembler source stated.evaluator stated.context.location
      (p.readInstruction assembler group rest).1.symbols :=
    allocate_enters (p := stated) (remarks.settles.label.trans named)
      fun q => (encodeLine_settles q assembler _).symbols
  rw [show stated.evaluator = p.evaluator from remarks.evaluator,
    show stated.context.location = p.context.location from remarks.settles.counter] at applied
  exact applied

theorem readUnknown_enters (columns : Columns) (named : p.line.label = assembler.label? source) :
    Enters assembler source p.evaluator p.context.location
      (p.readUnknown assembler columns).symbols := by
  have labelled : ∀ q : Pass, q.line.label = p.line.label → q.evaluator = p.evaluator →
      q.context.location = p.context.location →
      Enters assembler source p.evaluator p.context.location
        (q.defineOwnLabel assembler).symbols := by
    intro q label evaluator location
    rw [← evaluator, ← location]
    exact defineOwnLabel_enters (label.trans named)
  unfold readUnknown
  dsimp only
  split
  · split
    · exact labelled _ rfl rfl rfl
    · rw [report_symbols]
      exact labelled _ rfl rfl rfl
  · split
    · exact labelled p rfl rfl rfl
    · rw [report_symbols]
      exact labelled p rfl rfl rfl

/-- What a line does to the symbols is told by how it is written. -/
theorem readLine_enters (fresh : p.Fresh) : Enters assembler p.line.source p.evaluator
    p.context.location (p.readLine assembler).symbols := by
  let labelled := p.readLabel assembler (assembler.columns p.line.source).label
  have named : labelled.line.label = assembler.label? p.line.source :=
    (readLabel_holds assembler fresh (assembler.columns p.line.source).label).label
  obtain ⟨program, _, counter, symbols, _, _⟩ := readLabel_settles p assembler
    (assembler.columns p.line.source).label fresh.unnamed fresh.unstated
  have evaluator : labelled.evaluator = p.evaluator := by
    rw [Pass.evaluator, symbols, program.program]
    rfl
  rcases readLine_cases p assembler with ⟨key, _, refused⟩ | blank | ⟨_, _, command⟩
  · rw [refused]
    exact enters_of_symbols (report_symbols p assembler key)
  · rw [blank]
    exact .nothing
  · rw [command, ← evaluator, ← counter]
    cases found : assembler.command? (assembler.columns p.line.source).command with
    | none =>
      rw [readCommand_unknown rfl found]
      exact readUnknown_enters _ named
    | some command =>
      cases command with
      | group group =>
        rw [readCommand_group rfl found, (finishLine_settles _ assembler _).symbols]
        exact readInstruction_enters named
      | directive directive =>
        rw [readCommand_directive rfl found, (finishLine_settles _ assembler _).symbols]
        exact readDirective_enters named (Assembler.directive?_of_command found)

/-- A line that is written as a directive is read as one, unless it is refused. -/
theorem readLine_of_written {directive : Directive} {operand : Operand}
    (said : assembler.directive? p.line.source = some (directive, operand))
    (running : (p.readLine assembler).fatal = none) :
    p.readLine assembler = (p.asDirective assembler directive).1.finishLine assembler
      (p.asDirective assembler directive).2 := by
  obtain ⟨command, _⟩ := Assembler.directive?_eq_some said
  have word := Assembler.kind_of_command? command
  have filled : (assembler.columns p.line.source).command.kind ≠ .empty := by simp [word]
  have uncommented : (assembler.columns p.line.source).command.kind ≠ .comment := by simp [word]
  have nonblank := Assembler.isBlank_of_kind filled uncommented
  have fatal : ∀ key : Key, key.severity = .fatal → (p.report assembler key).fatal ≠ none := by
    intro key severe
    simp [severe]
  unfold readLine at running ⊢
  split at running
  · exact absurd running (fatal .noStart rfl)
  · rename_i first
    rw [if_neg first]
    split at running
    · exact absurd running (fatal .afterEnd rfl)
    · rename_i unended
      have unended : p.context.ended = false := by simpa [nonblank] using unended
      rw [if_neg (by simp [unended]), if_neg (by simp [unended, nonblank])]
      exact readCommand_directive rfl command

/-- A line that is read as a directive is the directive applied to its operand, after remarks. -/
theorem asDirective_applies (fresh : p.Fresh) {directive : Directive} {operand : Operand}
    (said : assembler.directive? p.line.source = some (directive, operand)) :
    ∃ stated : Pass, stated.symbols = p.symbols ∧ stated.line.addressed = false ∧
      stated.line.statement = some (.directive directive operand) ∧
      (p.asDirective assembler directive).1 =
        stated.applyDirective assembler directive operand := by
  obtain ⟨_, rfl⟩ := Assembler.directive?_eq_some said
  let labelled := p.readLabel assembler (assembler.columns p.line.source).label
  obtain ⟨_, _, _, symbols, addressed, _⟩ := readLabel_settles p assembler
    (assembler.columns p.line.source).label fresh.unnamed fresh.unstated
  obtain ⟨added, remarks, _⟩ := readOperand_remarks labelled assembler
    (assembler.columns p.line.source).rest
  refine ⟨_, ?_, ?_, rfl, rfl⟩
  · exact remarks.symbols.trans symbols
  · exact remarks.settles.addressed.trans (addressed.trans fresh.unaddressed)

end Pass

/-! ### Runs -/

/-- A line of a source, as it is read; there is nothing on the lines after the last. -/
def sourceLine (sources : List Bytes) (k : Nat) : Bytes :=
  dropTrailing Lines.isCarriageReturn (sources[k]?.getD [])

theorem sourceLine_of_getElem? {sources : List Bytes} {k : Nat} {source : Bytes}
    (here : sources[k]? = some source) :
    sourceLine sources k = dropTrailing Lines.isCarriageReturn source := by
  rw [sourceLine, here, Option.getD_some]

/-- A directive is written on one of the lines. -/
theorem Assembler.getElem?_of_directive? {assembler : Assembler} {sources : List Bytes} {k : Nat}
    {said : Directive × Operand}
    (written : assembler.directive? (sourceLine sources k) = some said) :
    ∃ source, sources[k]? = some source := by
  cases here : sources[k]? with
  | some source => exact ⟨source, rfl⟩
  | none =>
    rw [sourceLine, here] at written
    cases written

namespace Reading

variable {assembler : Assembler}

/-- What a line does to the symbols is told by how it is written. -/
theorem enters_take (assembler : Assembler) (sources : List Bytes) (k : Nat) :
    Enters assembler (sourceLine sources k)
      ⟨(ofLines assembler (sources.take k)).symbols,
        (ofLines assembler (sources.take k)).context.program⟩
      (ofLines assembler (sources.take k)).context.location
      (ofLines assembler (sources.take (k + 1))).symbols := by
  cases here : sources[k]? with
  | none =>
    rw [List.take_add_one, here, Option.toList_none, List.append_nil]
    exact .nothing
  | some source =>
    rw [ofLines_take_succ here, sourceLine_of_getElem? here]
    cases halted : (ofLines assembler (sources.take k)).fatal.isSome with
    | true =>
      rw [add_of_halted assembler halted]
      exact .nothing
    | false =>
      rw [add_symbols (by simpa using halted)]
      exact Pass.readLine_enters (fresh_isFresh _ (source, k + 1))

theorem add_extends (reading : Reading) (numbered : Bytes × Nat) :
    reading.symbols.Extends (add assembler reading numbered).symbols := by
  cases halted : reading.fatal.isSome with
  | true =>
    rw [add_of_halted assembler halted]
    exact .refl _
  | false =>
    have advance : (reading.fresh numbered).Advance (reading.stepped assembler numbered) :=
      Pass.readLine_advance _ assembler (reading.fresh_isFresh numbered)
    rw [add_symbols (by simpa using halted)]
    exact advance.extends

theorem extends_append (sources more : List Bytes) :
    (ofLines assembler sources).symbols.Extends (ofLines assembler (sources ++ more)).symbols := by
  induction more using List.reverseRecOn with
  | nil =>
    rw [List.append_nil]
    exact .refl _
  | append_singleton more source ih =>
    rw [← List.append_assoc, ofLines_concat]
    exact ih.trans (add_extends _ _)

theorem extends_whole (sources : List Bytes) (k : Nat) :
    (ofLines assembler (sources.take k)).symbols.Extends (ofLines assembler sources).symbols := by
  have whole : (ofLines assembler (sources.take k)).symbols.Extends
      (ofLines assembler (sources.take k ++ sources.drop k)).symbols := extends_append _ _
  rwa [List.take_append_drop] at whole

end Reading

end WordAssembler

import WordAssembler.Proofs.Decoding
import WordAssembler.Proofs.Patches
import WordAssembler.Proofs.Records

/-!
What reaches the records of an object file. A symbol is entered under a name that the source spells,
so every label of a record is a word, and every address is that of a line or a symbol in memory.
With this the text of an object file can be read back.
-/

set_option autoImplicit false

namespace WordAssembler

open Expression

/-! ### Names in the table -/

theorem Bytes.isWord_of_label {name : Bytes} (label : Token.kindOf name = .label) : name.IsWord :=
  ⟨(Token.letters_of_label label).1, (Token.letters_of_label label).2⟩

/-- The labels of a table look like names. -/
def Symbol.Table.Named (table : Symbol.Table) : Prop :=
  ∀ symbol ∈ table.symbols, Token.kindOf symbol.label = .label

namespace Symbol.Table.Named

variable {table : Symbol.Table}

theorem insert (named : table.Named) {symbol : Symbol}
    (spelled : Token.kindOf symbol.label = .label) : (table.insert symbol).Named := by
  intro other member
  rcases Symbol.Table.mem_insert member with rfl | old
  · exact spelled
  · exact named other old

theorem spelled (named : table.Named) {label : Bytes} {symbol : Symbol}
    (found : table.get? label = some symbol) : Token.kindOf label = .label := by
  rw [← Symbol.Table.label_of_get? found]
  exact named symbol (Symbol.Table.mem_of_get? found)

theorem word (named : table.Named) {label : Bytes} {symbol : Symbol}
    (found : table.get? label = some symbol) : label.IsWord :=
  Bytes.isWord_of_label (named.spelled found)

end Symbol.Table.Named

/-- A line enters names only. -/
theorem Enters.named {assembler : Assembler} {source : Bytes} {known : Evaluator} {location : Int}
    {next : Symbol.Table} (enters : Enters assembler source known location next)
    (named : known.symbols.Named) : next.Named := by
  cases enters with
  | nothing => exact named
  | program name load operand said spelled =>
    unfold Symbol.Table.extend
    split
    · exact named
    · exact named.insert spelled
  | label label address own absent => exact named.insert (Assembler.kindOf_of_label? own)
  | place symbol address own found entry unlocated =>
    exact named.insert (named symbol (Symbol.Table.mem_of_get? found))
  | equate label directive operand found own said equates absent value =>
    exact named.insert (Assembler.kindOf_of_label? own)
  | entry operand said symbol absent =>
    exact named.insert (Assembler.kindOf_of_symbol said symbol)
  | promote operand symbol said kind found label =>
    exact named.insert (named symbol (Symbol.Table.mem_of_get? found))
  | external operand said symbol absent =>
    exact named.insert (Assembler.kindOf_of_symbol said symbol)

/-! ### The first pass -/

/-- The word of a line, and the address that it moves the location counter to, are in memory. -/
structure Line.Inside (line : Line) : Prop where
  place : line.addressed = true → isAddress line.location = true
  target : ∀ target, line.resetTarget? = some target → isAddress target = true

theorem Pass.Advance.inside {p q : Pass} (advance : p.Advance q) (lower : 0 ≤ p.context.location) :
    q.line.Inside := by
  refine ⟨advance.place lower, ?_⟩
  intro target moved
  cases advance with
  | rest _ _ _ unmoved => cases unmoved.symm.trans moved
  | word _ _ _ _ _ unmoved => cases unmoved.symm.trans moved
  | skip address _ forward room _ _ reset =>
    cases reset.symm.trans moved
    simp only [isAddress, Bool.and_eq_true, decide_eq_true_eq]
    omega
  | begin _ _ _ _ _ _ _ _ _ _ unmoved => cases unmoved.symm.trans moved

namespace Reading

variable {assembler : Assembler}

/-- What a reading holds that may reach a record: names are words, the program is not shorter than
nothing, and lines are in memory. -/
structure Recordable (context : Context) (symbols : Symbol.Table) (lines : List Line) : Prop where
  labels : symbols.Named
  program : context.started = true → context.program.IsWord
  forward : context.start ≤ context.location
  inside : ∀ line ∈ lines, line.Inside

/-- A program that begins on a line has a name that the line enters. -/
theorem program_of_advance {p q : Pass} (advance : p.Advance q) (labels : q.symbols.Named)
    (program : p.context.started = true → p.context.program.IsWord) :
    q.context.started = true → q.context.program.IsWord := by
  have unchanged : p.context.SameProgram q.context →
      q.context.started = true → q.context.program.IsWord := by
    intro same started
    rw [same.program]
    exact program (same.started.symm.trans started)
  cases advance with
  | rest same => exact unchanged same
  | word same => exact unchanged same
  | skip _ same => exact unchanged same
  | begin name load _ _ begun _ _ _ _ _ _ symbols =>
    intro _
    obtain ⟨known, found⟩ : ∃ known, q.symbols.get? name = some known := by
      rw [symbols, Symbol.Table.extend]
      split
      · rename_i there
        exact Option.isSome_iff_exists.1 there
      · exact ⟨_, Symbol.Table.get?_insert_self _ _⟩
    rw [begun]
    exact labels.word found

theorem forward_of_advance {p q : Pass} (advance : p.Advance q)
    (forward : p.context.start ≤ p.context.location) :
    q.context.start ≤ q.context.location := by
  cases advance with
  | rest same counter =>
    have start := same.start
    omega
  | word same _ counter =>
    have start := same.start
    omega
  | skip _ same _ _ counter =>
    have start := same.start
    omega
  | begin _ _ _ _ _ start counter => omega

theorem recordable_initial : Recordable .initial .empty [] where
  labels symbol member := by cases member
  program started := by cases started
  forward := Int.le_refl 0
  inside line member := by cases member

theorem ofLines_recordable (sources : List Bytes) :
    Recordable (ofLines assembler sources).context (ofLines assembler sources).symbols
      (ofLines assembler sources).lines := by
  induction sources using List.reverseRecOn with
  | nil => exact recordable_initial
  | append_singleton sources source ih =>
    rw [ofLines_concat]
    cases halted : (ofLines assembler sources).fatal.isSome with
    | true =>
      rw [add_of_halted assembler halted]
      exact ih
    | false =>
      have running : (ofLines assembler sources).fatal = none := by simpa using halted
      have fresh := (ofLines assembler sources).fresh_isFresh (source, sources.length + 1)
      have advance := Pass.readLine_advance _ assembler fresh
      have labels : ((ofLines assembler sources).stepped assembler
          (source, sources.length + 1)).symbols.Named :=
        (Pass.readLine_enters fresh).named ih.labels
      refine ⟨?_, ?_, ?_, ?_⟩
      · rw [add_symbols running]
        exact labels
      · rw [add_context running]
        exact program_of_advance advance labels ih.program
      · rw [add_context running]
        exact forward_of_advance advance ih.forward
      · rw [add_lines running]
        intro line member
        rcases List.mem_cons.1 member with rfl | earlier
        · exact advance.inside (ofLines_bounded assembler sources).lower
        · exact ih.inside line earlier

variable {reading : Reading} {program : Program}

theorem Closed.recordable (closed : reading.Closed assembler program)
    (recordable : Recordable reading.context reading.symbols reading.lines) :
    Recordable program.context program.symbols program.lines := by
  obtain ⟨labels, named, forward, inside⟩ := recordable
  cases closed with
  | ended same =>
    rw [same]
    exact ⟨labels, named, forward, fun line member => inside line (List.mem_reverse.1 member)⟩
  | unended last earlier lines same =>
    rw [lines] at inside
    rw [same]
    refine ⟨labels, named, forward, ?_⟩
    intro line member
    rcases List.mem_cons.1 (List.mem_reverse.1 member) with rfl | before
    · obtain ⟨place, target⟩ := inside last List.mem_cons_self
      refine ⟨place, ?_⟩
      rw [last.resetTarget?_unended assembler]
      exact target
    · exact inside line (List.mem_cons_of_mem _ before)

end Reading

/-! ### Adjustments -/

/-- The adjustments are to labels that are words. -/
def Adjustment.Named (adjustments : List Adjustment) : Prop :=
  ∀ adjustment ∈ adjustments, adjustment.label.IsWord

/-- The program and its symbols have words for names. -/
structure Expression.Evaluator.Named (ev : Evaluator) : Prop where
  symbols : ev.symbols.Named
  program : ev.program.IsWord

namespace Expression.Evaluator.Named

variable {ev : Evaluator} (named : ev.Named) {expression term : Bytes} {location limit : Int}
include named

theorem own (positive : Bool) : Adjustment.Named [ev.ownAdjustment positive] := by
  intro adjustment member
  rw [List.mem_singleton.1 member]
  exact named.program

theorem replicate_own (count : Nat) (positive : Bool) :
    Adjustment.Named (List.replicate count (ev.ownAdjustment positive)) := by
  intro adjustment member
  rw [List.eq_of_mem_replicate member]
  exact named.program

theorem operandTerm {operator : UInt8} {value : Int} {adjustments : List Adjustment}
    (found : ev.operandTerm operator term = .ok (value, adjustments)) :
    Adjustment.Named adjustments := by
  cases operandTerm_iff.1 found with
  | number | equated => exact nofun
  | inside => exact named.own _

theorem operandAfterStar {value : Int} {adjustments : List Adjustment}
    (found : ev.operandAfterStar location term = .ok (value, adjustments)) :
    Adjustment.Named adjustments := by
  unfold Evaluator.operandAfterStar at found
  dsimp only at found
  repeat' split at found
  all_goals cases found
  rename_i terms _
  intro adjustment member
  rcases List.mem_cons.1 member with rfl | later
  · exact named.program
  · exact named.operandTerm terms adjustment later

theorem operand {value : Int} {adjustments : List Adjustment}
    (found : ev.operand expression location = .ok (value, adjustments)) :
    Adjustment.Named adjustments := by
  unfold Evaluator.operand at found
  repeat' split at found
  · cases found
    exact named.own true
  · cases found
  · exact named.operandAfterStar found
  · cases found
  · cases found

theorem constantTerm {isFirst positive : Bool} {read : ConstantTerm}
    (found : ev.constantTerm location isFirst positive term = .ok read) :
    Adjustment.Named read.adjustments := by
  cases constantTerm_ok found with
  | here => exact named.own true
  | inside => exact named.own positive
  | external _ known _ =>
    intro adjustment member
    rw [List.mem_singleton.1 member]
    exact Bytes.isWord_of_label (named.symbols _ (Symbol.Table.mem_of_get? known))
  | equated => exact named.replicate_own _ positive
  | number => exact nofun

theorem constant {found : Constant}
    (value : ev.constant expression location limit = .ok found) :
    Adjustment.Named found.adjustments := by
  obtain ⟨_, terms, evaluated, made⟩ := unmarkedConstant_ok value
  obtain ⟨_, all⟩ := constantTerms_ok named.constantTerm (fun _ none => absurd none List.not_mem_nil)
    evaluated
  obtain ⟨_, _, adjustments, _⟩ := constantOf_ok made
  rw [adjustments]
  split
  · exact nofun
  · intro adjustment member
    obtain ⟨term, known, inside⟩ := List.mem_flatMap.1 member
    exact all term known adjustment inside

end Expression.Evaluator.Named

/-- A word is left to the linker with adjustments to named labels only. -/
theorem Scope.resolution_named {scope : Scope} (named : scope.evaluator.Named) {line : Line}
    {word : Word} {adjustments : List Adjustment}
    (adjusted : scope.resolution line = .adjusted word adjustments) :
    Adjustment.Named adjustments := by
  have constant : ∀ directive location expression,
      scope.resolveConstant directive location expression = .adjusted word adjustments →
      Adjustment.Named adjustments := by
    intro directive location expression adjusted
    unfold resolveConstant at adjusted
    dsimp only at adjusted
    repeat' split at adjusted
    all_goals cases adjusted
    rename_i found value _ _
    exact named.constant value
  unfold resolution at adjusted
  split at adjusted
  · unfold resolveInstruction at adjusted
    split at adjusted
    · unfold resolveEquated at adjusted
      repeat' split at adjusted
      all_goals cases adjusted
      exact named.replicate_own _ true
    · split at adjusted
      · unfold resolveSymbol at adjusted
        split at adjusted
        · cases adjusted
        · rename_i symbol found
          repeat' split at adjusted
          all_goals cases adjusted
          intro adjustment member
          rw [List.mem_singleton.1 member]
          exact Bytes.isWord_of_label (named.symbols symbol (Symbol.Table.mem_of_get? found))
      · unfold resolveExpression at adjusted
        repeat' split at adjusted
        all_goals cases adjusted
        rename_i found
        exact named.operand found
      · cases adjusted
  · unfold resolveDirective at adjusted
    repeat' split at adjusted
    · cases adjusted
    · exact constant _ _ _ adjusted
    · exact constant _ _ _ adjusted
    · cases adjusted
    · cases adjusted
  · cases adjusted

/-! ### Records -/

theorem fitsField_of_isAddress {value : Int} (inside : isAddress value = true) :
    FitsField value := by
  simp only [isAddress, Bool.and_eq_true, decide_eq_true_eq] at inside
  have last : Word.lastAddress = 1023 := rfl
  constructor <;> omega

theorem Scope.record_flag (scope : Scope) (assembler : Assembler) {line : Line}
    (addressed : line.addressed = true) : (scope.record assembler line).flag ∈ Flag.all := by
  change (scope.lineAfter assembler line).flag ∈ Flag.all
  rw [lineAfter, if_pos addressed]
  cases resolved : scope.resolution line with
  | settled word flag =>
    change flag ∈ Flag.all
    rcases resolution_flag resolved with rfl | rfl <;> decide
  | adjusted word adjustments =>
    change Flag.modify ∈ Flag.all
    decide
  | faulty key =>
    change Flag.absolute ∈ Flag.all
    decide

theorem Scope.modification?_named {scope : Scope} (named : scope.evaluator.Named) {line : Line}
    {modification : Modification} (found : scope.modification? line = some modification) :
    Adjustment.Named modification.adjustments ∧
      modification.program = scope.evaluator.program := by
  have addressed := addressed_of_modification? found
  rw [Scope.modification?, if_pos addressed] at found
  cases resolved : scope.resolution line with
  | settled word flag =>
    rw [resolved] at found
    cases found
  | adjusted word adjustments =>
    rw [resolved] at found
    cases found
    refine ⟨?_, rfl⟩
    intro adjustment member
    exact resolution_named named resolved adjustment (List.mem_of_mem_take member)
  | faulty key =>
    rw [resolved] at found
    cases found

namespace Emits

variable {assembler : Assembler} {program : Program} {exported : List Line} {emitted : Emitted}
  (emits : Emits assembler program exported emitted)
  (recordable : Reading.Recordable program.context program.symbols program.lines)
include emits recordable

theorem named : program.scope.evaluator.Named :=
  ⟨recordable.labels, recordable.program emits.started⟩

theorem linking_fits (placement : Placement program.lines program.symbols)
    (within : Reading.Within program.symbols) : ∀ record ∈ emitted.file.linking, record.Fits := by
  intro record member
  rw [emits.linking_eq] at member
  obtain ⟨⟨symbol, found, _⟩, name⟩ := Program.located_of_linking placement member
  refine ⟨recordable.labels.word found, ?_, ?_⟩
  · rcases List.mem_append.1 member with entry | reset
    · obtain ⟨known, there, usage, located, _⟩ := Program.mem_entryLinking.1 entry
      have bounds := within known (Symbol.Table.mem_of_get? there) (by simp [usage]) _ located
      simp only [Word.lastAddress] at bounds
      constructor <;> omega
    · obtain ⟨line, known, _, placed, _⟩ := (Program.mem_resetLinking placement).1 reset
      obtain ⟨moved, _⟩ := Line.placed?_eq_some_iff.1 placed
      exact fitsField_of_isAddress ((recordable.inside line known).target _ moved)
  · rw [name]
    exact recordable.program emits.started

section Worded

variable (worded : ∀ line ∈ program.lines, line.addressed = true → line.Worded assembler)
include worded

theorem text_fits : ∀ record ∈ emitted.file.text, record.Fits := by
  intro record member
  obtain ⟨most, _⟩ := emits.record_adjustments record member
  rw [emits.text] at member
  obtain ⟨line, chosen, rfl⟩ := List.mem_map.1 member
  obtain ⟨known, addressed⟩ := List.mem_filter.1 chosen
  have inside := recordable.inside line (emits.mem_of_exported worded line known addressed)
  refine ⟨?_, fitsField_word _, program.scope.record_flag assembler addressed,
    Int.natCast_nonneg _, most, recordable.program emits.started⟩
  change FitsField (program.scope.lineAfter assembler line).location
  rw [(program.scope.lineAfter_keeps assembler line).location]
  exact fitsField_of_isAddress (inside.place addressed)

theorem modifications_fit : ∀ record ∈ emitted.file.modifications, record.Fits := by
  intro record member
  rw [emits.modifications] at member
  obtain ⟨line, known, found⟩ := List.mem_filterMap.1 member
  have addressed := Scope.addressed_of_modification? found
  have inside := recordable.inside line (emits.mem_of_exported worded line known addressed)
  obtain ⟨labels, name⟩ := Scope.modification?_named (emits.named recordable) found
  refine ⟨?_, fitsField_word _, labels, ?_⟩
  · rw [Scope.modification?_location program.scope found]
    exact fitsField_of_isAddress (inside.place addressed)
  · rw [name]
    exact recordable.program emits.started

end Worded

end Emits

namespace Assembler

variable {assembler : Assembler}

/-- What a file tells of a program in its header and at its end. -/
structure Heads (assembler : Assembler) (context : Context) (file : ObjectFile) : Prop where
  name : file.header.name = context.program
  load : file.header.load = context.start
  start : file.header.start = context.start
  length : file.header.length = context.length
  assembler : file.header.assembler = assembler.identifier
  program : file.program = context.program

/-- The header of an emitted file tells of the program as it was read. -/
theorem emit_heads {program : Program} {date : Date} {emitted : Emitted}
    (success : assembler.emit program date = .ok emitted) :
    Heads assembler program.context emitted.file := by
  have heads : Heads assembler emitted.program.context emitted.file := by
    unfold emit at success
    repeat' split at success
    all_goals cases success
    exact ⟨rfl, rfl, rfl, rfl, rfl, rfl⟩
  obtain ⟨_, emits⟩ := assembler.emit_emits success
  obtain ⟨_, context, _⟩ := emits.context
  rw [context] at heads
  exact ⟨heads.name, heads.load, heads.start, heads.length, heads.assembler, heads.program⟩

/-- Whatever the source, what reaches a record fits it. -/
theorem file_fits {text : Bytes} {date : Date} {file : ObjectFile}
    (assembled : (assembler.assemble text date).outcome = .ok file) : file.Fits := by
  obtain ⟨_, emitted, success, _, rfl⟩ := assemble_ok assembled
  obtain ⟨exported, emits⟩ := assembler.emit_emits success
  obtain ⟨running, closed⟩ := assembler.parse_running text emits.running
  have heads := emit_heads success
  have recordable := closed.recordable (Reading.ofLines_recordable _)
  have bounded := closed.bounded (Reading.ofLines_bounded assembler _)
  have worded := closed.lines_worded (Reading.lines_worded running)
  have within : Reading.Within (assembler.parse text).program.symbols := by
    rw [closed.symbols]
    exact Reading.ofLines_within _
  have word := recordable.program emits.started
  have lowest := bounded.start
  have upper := bounded.upper
  have forward := recordable.forward
  simp only [Word.lastAddress] at upper
  refine ⟨heads.name ▸ word, ?_, ?_, ?_, ?_, ?_, ?_, heads.program ▸ word⟩
  · rw [heads.load]
    constructor <;> omega
  · rw [heads.length, Context.length]
    constructor <;> omega
  · rw [heads.start]
    constructor <;> omega
  · exact emits.linking_fits recordable (closed.placement (Reading.ofLines_placement _)) within
  · exact emits.text_fits recordable worded
  · exact emits.modifications_fit recordable worded

/-- The text of an object file is read back to the names, numbers and records of the file. Every
label in it is a nonempty run of letters and digits, and every number fits its field. -/
theorem decode?_of_assembled (assembler : Assembler) (text : Bytes) (date : Date)
    (file : ObjectFile) (assembled : (assembler.assemble text date).outcome = .ok file)
    (oneLine : byte '\n' ∉ assembler.identifier) :
    Decoder.decode? file.render = some file.contents ∧ file.Fits := by
  have fits := file_fits assembled
  obtain ⟨_, _, success, _, same⟩ := assemble_ok assembled
  have heads := same ▸ emit_heads success
  rw [← heads.assembler] at oneLine
  exact ⟨ObjectFile.decode?_render fits oneLine, fits⟩

end Assembler

/-- A program with an entry, and a word with two adjustments; the assembler is called by a name with
colons. -/
def colonAssembler : Assembler := { identifier := ascii "A:L:FFFF:P" }

def adjustedSource : Bytes :=
  ascii "PROG START 4\n ENTRY HERE\n EXTRN FAR\nHERE ADC FAR-HERE\n JUMP EQUAL HERE\n END PROG"

theorem Assembler.decode?_of_adjustedSource : ∃ file,
    (colonAssembler.assemble adjustedSource Date.first).outcome = .ok file ∧
      byte '\n' ∉ colonAssembler.identifier ∧
      Decoder.decode? file.render = some file.contents ∧
      file.contents.linking = [⟨ascii "HERE", 4, ascii "PROG"⟩] ∧
      file.contents.modifications.map (·.adjustments) =
        [[⟨true, ascii "FAR"⟩, ⟨false, ascii "PROG"⟩]] := by
  have found : (colonAssembler.assemble adjustedSource Date.first).outcome.toOption.any
      (fun file => file.contents.linking == [⟨ascii "HERE", 4, ascii "PROG"⟩] &&
        file.contents.modifications.map (·.adjustments) ==
          [[⟨true, ascii "FAR"⟩, ⟨false, ascii "PROG"⟩]]) = true := by
    decide +kernel
  cases assembled : (colonAssembler.assemble adjustedSource Date.first).outcome with
  | error fault =>
    rw [assembled] at found
    cases found
  | ok file =>
    rw [assembled] at found
    have oneLine : byte '\n' ∉ colonAssembler.identifier := by decide
    have decoded := Assembler.decode?_of_assembled colonAssembler adjustedSource Date.first file
      assembled oneLine
    simp only [Except.toOption, Option.any_some, Bool.and_eq_true, beq_iff_eq] at found
    exact ⟨file, rfl, oneLine, decoded.1, found.1, found.2⟩

end WordAssembler

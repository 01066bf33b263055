import WordAssembler.Proofs.MovedWords
import WordAssembler.Proofs.Neutral
import WordAssembler.Proofs.Start

/-!
Relocation of whole programs. The same lines, begun at two load addresses and assembled without an
error at both, give object files that differ only as their flags and adjustments say: an object file
tells all that a linker has to know to move the program.
-/

set_option autoImplicit false

namespace WordAssembler

open Expression

/-! ### Records -/

/-- A linking record of the program loaded some distance further. -/
structure Linking.Relocated (distance : Int) (first second : Linking) : Prop where
  entry : second.entry = first.entry
  location : second.location = first.location + distance

/-- A text record of the program loaded some distance further: an absolute word is the same, and of
a relocatable one the address field is that much larger. -/
structure TextRecord.Relocated (distance : Int) (first second : TextRecord) : Prop where
  location : second.location = first.location + distance
  flag : second.flag = first.flag
  adjustments : second.adjustments = first.adjustments
  absolute : first.flag = .absolute → second.word = first.word
  relocatable : first.flag = .relocatable →
    second.word >>> 10 = first.word >>> 10 ∧
      ((second.word &&& Word.addressMask).toNat : Int) =
        (first.word &&& Word.addressMask).toNat + distance

/-- A modification of the program loaded some distance further: the word is larger by the distance
for every time that the program is added, and smaller for every time that it is subtracted. -/
structure Modification.Relocated (program : Bytes) (distance : Int)
    (first second : Modification) : Prop where
  location : second.location = first.location + distance
  adjustments : second.adjustments = first.adjustments
  word : second.word = first.word + Word.ofInt (distance * net program first.adjustments)

/-- The modifications of a file are those of its words with the flag for them, in order. -/
def ObjectFile.Paired (file : ObjectFile) : Prop :=
  List.Forall₂ (fun text modification => modification.location = text.location ∧
      modification.word = text.word ∧ (modification.size : Int) = text.adjustments)
    (file.text.filter (·.flag == .modify)) file.modifications

/-- The object file of the program loaded some distance further, record by record. -/
structure ObjectFile.Relocated (program : Bytes) (distance : Int) (first second : ObjectFile) :
    Prop where
  linking : List.Forall₂ (Linking.Relocated distance) first.linking second.linking
  text : List.Forall₂ (TextRecord.Relocated distance) first.text second.text
  modifications : List.Forall₂ (Modification.Relocated program distance) first.modifications
    second.modifications
  paired : first.Paired
  pairedMoved : second.Paired

theorem Emits.paired {assembler : Assembler} {program : Program} {exported : List Line}
    {emitted : Emitted} (emits : Emits assembler program exported emitted) :
    emitted.file.Paired := by
  have addressed : exported.filterMap program.scope.modification? =
      (exported.filter (·.addressed)).filterMap program.scope.modification? := by
    rw [List.filterMap_filter]
    apply List.filterMap_congr
    intro line _
    cases word : line.addressed <;> simp [Scope.modification?, word]
  rw [ObjectFile.Paired, emits.text, emits.modifications, addressed]
  apply forall₂_filterMap
  · intro line member
    rw [Bool.eq_iff_iff, beq_iff_eq]
    exact program.scope.lineAfter_flag assembler (List.mem_filter.1 member).2
  · intro line member modification found
    have word := (List.mem_filter.1 member).2
    refine ⟨?_, ?_, ?_⟩
    · rw [program.scope.modification?_location found]
      exact (program.scope.lineAfter_location assembler line).symm
    · rw [Scope.modification?, if_pos word] at found
      simp only [Scope.record, Emission.textRecord, Scope.lineAfter, word, ↓reduceIte]
      cases resolved : program.scope.resolution line with
      | adjusted word adjustments =>
        rw [resolved] at found
        cases found
        rfl
      | settled word flag =>
        rw [resolved] at found
        cases found
      | faulty key =>
        rw [resolved] at found
        cases found
    · simp [Scope.record, Emission.textRecord, found]

/-! ### Programs -/

/-- Two programs as read, some distance apart, with all addresses in memory. -/
structure Program.Moves (distance : Int) (first second : Program) : Prop where
  scope : second.scope = first.scope.moved distance
  movable : first.scope.Movable distance
  lines : List.Forall₂ (Line.Moves distance) first.lines second.lines
  inside : ∀ line ∈ first.lines, line.addressed = true → isAddress line.location = true
  insideMoved : ∀ line ∈ second.lines, line.addressed = true → isAddress line.location = true

/-- A relation of elements in order, from another one that holds of them. -/
theorem forall₂_of_mem {α β : Type} {holds wanted : α → β → Prop} {first : List α} {second : List β}
    (related : List.Forall₂ holds first second)
    (gives : ∀ a ∈ first, ∀ b ∈ second, holds a b → wanted a b) :
    List.Forall₂ wanted first second := by
  rw [List.forall₂_iff_zip] at related ⊢
  refine ⟨related.1, ?_⟩
  intro a b pair
  obtain ⟨left, right⟩ := List.of_mem_zip pair
  exact gives a left b right (related.2 pair)

theorem Scope.linking?_of_plain (scope : Scope) {line : Line}
    (plain : ∀ statement, line.statement = some statement → statement.Plain) :
    scope.linking? line = none := by
  unfold Scope.linking? Emission.resetLinking? Line.directive?
  cases said : line.statement with
  | none => simp
  | some statement =>
    have moving := plain statement said
    cases statement with
    | directive directive operand =>
      cases directive with
      | reset => exact absurd rfl moving.1
      | _ => simp
    | _ => simp

namespace Resolution

variable {program : Bytes} {distance : Int} {first second : Resolution}
  (moves : first.Moves program distance second)
include moves

theorem Moves.modification? (location : Int) :
    Option.Rel (Modification.Relocated program distance) (first.modification? program location)
      (second.modification? program (location + distance)) := by
  cases moves with
  | absolute word => exact .none
  | relocatable word inside insideMoved => exact .none
  | adjusted value few =>
    refine .some ⟨rfl, rfl, ?_⟩
    rw [List.take_of_length_le few]
    exact value

/-- The records of lines with words that moved. -/
theorem Moves.record {line lineMoved : Line} (assembler : Assembler) (count : Int)
    (location : lineMoved.location = line.location + distance) :
    TextRecord.Relocated distance
      ⟨line.location, (first.line assembler line).word, (first.line assembler line).flag, count,
        program⟩
      ⟨lineMoved.location, (second.line assembler lineMoved).word,
        (second.line assembler lineMoved).flag, count, program⟩ := by
  cases moves with
  | absolute word =>
    refine ⟨location, rfl, rfl, fun _ => rfl, ?_⟩
    intro relocatable
    cases relocatable
  | @relocatable word address inside insideMoved =>
    refine ⟨location, rfl, rfl, fun absolute => Flag.noConfusion absolute, fun _ => ?_⟩
    have here := isAddress_iff.1 inside
    have there := isAddress_iff.1 insideMoved
    refine ⟨?_, ?_⟩
    · exact (Word.withAddress_shift there.1 there.2 word).trans
        (Word.withAddress_shift here.1 here.2 word).symm
    · have first := Word.withAddress_and_mask here.1 here.2 word
      have second := Word.withAddress_and_mask there.1 there.2 word
      simp only [Resolution.line]
      rw [first, second, Word.toNat_ofInt_address here.1 here.2,
        Word.toNat_ofInt_address there.1 there.2]
      omega
  | adjusted value few =>
    refine ⟨location, rfl, rfl, ?_, ?_⟩
    · intro absolute
      cases absolute
    · intro relocatable
      cases relocatable

end Resolution

namespace Scope

variable {distance : Int} {scope : Scope} {line lineMoved : Line}
  (moves : line.Moves distance lineMoved)
  (resolves : line.addressed = true → (scope.resolution line).Moves scope.evaluator.program distance
    ((scope.moved distance).resolution lineMoved))
include moves resolves

theorem modification?_moves : Option.Rel (Modification.Relocated scope.evaluator.program distance)
    (scope.modification? line) ((scope.moved distance).modification? lineMoved) := by
  unfold Scope.modification?
  rw [moves.addressed]
  split
  · rename_i addressed
    rw [moves.location addressed]
    exact (resolves addressed).modification? line.location
  · exact .none

theorem record_moves (assembler : Assembler) (addressed : line.addressed = true) :
    TextRecord.Relocated distance (scope.record assembler line)
      ((scope.moved distance).record assembler lineMoved) := by
  have addressedMoved : lineMoved.addressed = true := moves.addressed.trans addressed
  have count : ((scope.moved distance).modification? lineMoved).map Modification.size =
      (scope.modification? line).map Modification.size := by
    have related := modification?_moves moves resolves
    generalize scope.modification? line = first at related ⊢
    generalize (scope.moved distance).modification? lineMoved = second at related ⊢
    cases related with
    | none => rfl
    | some relocated => simp [Modification.size, relocated.adjustments]
  have record := (resolves addressed).record assembler
    (((scope.modification? line).map Modification.size).getD 0) (moves.location addressed)
  simp only [Scope.record, Emission.textRecord, lineAfter_location, count]
  simp only [Scope.lineAfter, addressed, addressedMoved, ↓reduceIte]
  exact record

end Scope

theorem Symbol.linking?_moved (program : Bytes) (distance : Int) (symbol : Symbol) :
    Option.Rel (Linking.Relocated distance) (symbol.linking? program)
      ((symbol.moved distance).linking? program) := by
  have usage : (symbol.moved distance).usage = symbol.usage := rfl
  have location : (symbol.moved distance).location = symbol.location.map (· + distance) := rfl
  unfold Symbol.linking?
  rw [usage, location]
  split
  · cases symbol.location with
    | none => exact .none
    | some address => exact .some ⟨rfl, rfl⟩
  · exact .none

/-- The object files of programs some distance apart. -/
theorem Emits.relocated {assembler : Assembler} {distance : Int} {first second : Program}
    {exported exportedMoved : List Line} {emitted emittedMoved : Emitted}
    (moves : first.Moves distance second) (emits : Emits assembler first exported emitted)
    (emitsMoved : Emits assembler second exportedMoved emittedMoved)
    (clean : emitted.program.context.errors = 0)
    (cleanMoved : emittedMoved.program.context.errors = 0) :
    emitted.file.Relocated first.context.program distance emittedMoved.file := by
  obtain ⟨_, same, here⟩ := emits.clean clean
  obtain ⟨_, sameMoved, there⟩ := emitsMoved.clean cleanMoved
  have name : second.context.program = first.context.program :=
    congrArg (·.evaluator.program) moves.scope
  have symbols : second.symbols = first.symbols.moved distance :=
    congrArg (·.evaluator.symbols) moves.scope
  have resolved : List.Forall₂ (fun line lineMoved => line.Moves distance lineMoved ∧
      (line.addressed = true → (first.scope.resolution line).Moves
        first.scope.evaluator.program distance
        ((first.scope.moved distance).resolution lineMoved))) first.lines second.lines := by
    apply forall₂_of_mem moves.lines
    intro line member lineMoved memberMoved pair
    refine ⟨pair, fun addressed => ?_⟩
    have addressedMoved : lineMoved.addressed = true := pair.addressed.trans addressed
    have found := there lineMoved memberMoved addressedMoved
    rw [moves.scope] at found
    exact Scope.resolution_moves moves.movable pair addressed (moves.inside line member addressed)
      (moves.insideMoved lineMoved memberMoved addressedMoved) (here line member addressed) found
  refine ⟨?_, ?_, ?_, emits.paired, emitsMoved.paired⟩
  · rw [emits.linking, emitsMoved.linking, same, sameMoved, name, symbols]
    have entries : List.Forall₂ (fun symbol other => other = Symbol.moved distance symbol)
        first.symbols.symbols (first.symbols.moved distance).symbols :=
      List.forall₂_map_right_iff.2 (List.forall₂_same.2 fun _ _ => rfl)
    refine List.rel_append (List.rel_filterMap ?_ entries) (List.rel_filterMap ?_ moves.lines)
    · rintro symbol _ rfl
      exact symbol.linking?_moved first.context.program distance
    · intro line lineMoved pair
      rw [first.scope.linking?_of_plain fun statement said => pair.plain statement (Or.inl said),
        second.scope.linking?_of_plain fun statement said => pair.plain statement (Or.inr said)]
      exact .none
  · rw [emits.text, emitsMoved.text, same, sameMoved, moves.scope, List.forall₂_map_left_iff,
      List.forall₂_map_right_iff]
    have filtered := List.rel_filter (p := (·.addressed)) (q := (·.addressed))
      (fun _ _ pair => Bool.eq_iff_iff.1 pair.1.addressed.symm) resolved
    apply forall₂_of_mem filtered
    intro line member lineMoved _ pair
    exact Scope.record_moves pair.1 pair.2 assembler (List.mem_filter.1 member).2
  · rw [emits.modifications, emitsMoved.modifications, same, sameMoved, moves.scope]
    exact List.rel_filterMap (fun _ _ pair => Scope.modification?_moves pair.1 pair.2) resolved

/-! ### Readings -/

namespace Reading

/-- The program has begun, and its name is known as such. -/
structure Named (name : Bytes) (reading : Reading) : Prop where
  started : reading.context.started = true
  program : reading.context.program = name
  symbol : ∃ symbol, reading.symbols.get? name = some symbol ∧ symbol.usage = .programName

variable {assembler : Assembler} {name : Bytes} {reading : Reading}

/-- No symbol of another program has the name of this one. -/
theorem Named.foreign (named : reading.Named name) {symbol : Symbol}
    (member : symbol ∈ reading.symbols.symbols) (external : symbol.usage = .external) :
    symbol.label ≠ name := by
  rintro rfl
  obtain ⟨own, found, usage⟩ := named.symbol
  rw [Symbol.Table.get?_of_mem member] at found
  rw [← Option.some.inj found, external] at usage
  cases usage

theorem Named.add (named : reading.Named name) (numbered : Bytes × Nat) :
    (add assembler reading numbered).Named name := by
  cases halted : reading.fatal.isSome with
  | true =>
    rw [add_of_halted assembler halted]
    exact named
  | false =>
    have running : reading.fatal = none := by simpa using halted
    have advance : (reading.fresh numbered).Advance (reading.stepped assembler numbered) :=
      Pass.readLine_advance _ assembler (reading.fresh_isFresh numbered)
    have kept : (reading.fresh numbered).context.SameProgram
          (reading.stepped assembler numbered).context ∧
        ∃ place, (reading.fresh numbered).symbols.Step place
          (reading.stepped assembler numbered).symbols := by
      cases advance with
      | rest program _ _ _ symbols => exact ⟨program, _, symbols⟩
      | word program _ _ _ _ _ symbols => exact ⟨program, _, symbols⟩
      | skip _ program _ _ _ _ _ symbols => exact ⟨program, _, symbols⟩
      | begin _ _ fresh =>
        have started : (reading.fresh numbered).context.started = true := named.started
        rw [fresh] at started
        cases started
    obtain ⟨same, place, step⟩ := kept
    obtain ⟨symbol, found, usage⟩ := named.symbol
    refine ⟨?_, ?_, symbol, ?_, usage⟩
    · rw [add_context running, same.started]
      exact named.started
    · rw [add_context running, same.program]
      exact named.program
    · rw [add_symbols running]
      exact step.keeps_program found usage

theorem Named.extended {sources : List Bytes} (named : (ofLines assembler sources).Named name)
    (more : List Bytes) : (ofLines assembler (sources ++ more)).Named name := by
  induction more using List.reverseRecOn with
  | nil => rwa [List.append_nil]
  | append_singleton more source ih =>
    rw [← List.append_assoc, ofLines_concat]
    exact ih.add _

/-! ### Programs as read -/

variable {program : Program} (closed : reading.Closed assembler program)
include closed

theorem Closed.scope : program.scope = ⟨⟨reading.symbols, reading.context.program⟩,
    reading.context.start, reading.context.location⟩ := by
  cases closed with
  | ended same =>
    rw [same]
    rfl
  | unended last earlier lines same =>
    rw [same]
    rfl

/-- What holds of the lines of a reading without regard to diagnostics holds of the program. -/
theorem Closed.forall₂ {relation : Line → Line → Prop} {others : List Line}
    (free : ∀ line other diagnostics, relation line other →
      relation { line with diagnostics := diagnostics } other)
    (related : List.Forall₂ relation reading.lines others) :
    List.Forall₂ relation program.lines others.reverse := by
  cases closed with
  | ended same =>
    rw [same]
    exact List.rel_reverse related
  | unended last earlier lines same =>
    rw [lines] at related
    rw [same]
    apply List.rel_reverse
    cases related with
    | cons head tail => exact .cons (free _ _ _ head) tail

/-- The words of a program that has begun are in memory. -/
theorem Closed.inside (layout : reading.Layout) (bounded : Bounded reading.context reading.symbols)
    {line : Line} (member : line ∈ program.lines) (addressed : line.addressed = true) :
    isAddress line.location = true := by
  have address : line.location ∈ Line.addresses program.lines :=
    List.mem_map_of_mem (List.mem_filter.2 ⟨member, addressed⟩)
  rw [closed.addresses] at address
  obtain ⟨read, known, word, same⟩ := Line.mem_addresses address
  have inside := layout.inside read (List.mem_reverse.1 known) word
  have start := bounded.start
  rw [isAddress_iff, ← same]
  omega

end Reading

/-- Readings some distance apart give programs that far apart. -/
theorem Program.moves_of_readings {assembler : Assembler} {distance : Int} {name : Bytes}
    {first second : Reading} {program programMoved : Program}
    (moves : first.Moves distance second) (named : first.Named name)
    (layout : first.Layout) (layoutMoved : second.Layout)
    (bounded : Reading.Bounded first.context first.symbols)
    (boundedMoved : Reading.Bounded second.context second.symbols)
    (clean : first.context.errors = 0) (cleanMoved : second.context.errors = 0)
    (closed : first.Closed assembler program) (closedMoved : second.Closed assembler programMoved) :
    program.Moves distance programMoved := by
  refine ⟨?_, ⟨⟨?_, ?_, ?_⟩, ?_⟩, ?_, ?_, ?_⟩
  · rw [closed.scope, closedMoved.scope, moves.context, moves.symbols]
    rfl
  · rw [closed.scope]
    exact moves.flat
  · rw [closed.scope]
    intro symbol member inside
    have start := bounded.start
    have lower := (layout.symbols symbol member inside).1
    cases located : symbol.location with
    | some address => rfl
    | none =>
      simp only [Symbol.address, located, Option.getD_none, Symbol.noAddress] at lower
      omega
  · rw [closed.scope]
    intro symbol member external
    exact named.program ▸ named.foreign member external
  · rw [closed.scope]
    intro symbol member usage address located
    have memberMoved : symbol.moved distance ∈ second.symbols.symbols := by
      rw [moves.symbols]
      exact List.mem_map_of_mem member
    refine ⟨isAddress_iff.2 (bounded.addresses clean symbol member usage address located),
      isAddress_iff.2 (boundedMoved.addresses cleanMoved _ memberMoved usage _ ?_)⟩
    simp [Symbol.moved, located]
  · have here : List.Forall₂ (Line.Moves distance) program.lines second.lines.reverse :=
      closed.forall₂ (fun _ _ _ pair =>
        ⟨pair.addressed, pair.location, pair.statement, pair.word, pair.plain⟩) moves.lines
    have back := List.rel_reverse here.flip
    rw [List.reverse_reverse] at back
    have there : List.Forall₂ (fun line other => Line.Moves distance other line)
        programMoved.lines program.lines.reverse.reverse :=
      closedMoved.forall₂ (fun _ _ _ pair =>
        ⟨pair.addressed, pair.location, pair.statement, pair.word, pair.plain⟩) back
    rw [List.reverse_reverse] at there
    exact there.flip
  · exact fun line member addressed => closed.inside layout bounded member addressed
  · exact fun line member addressed => closedMoved.inside layoutMoved boundedMoved member addressed

/-! ### Sources -/

/-- A source that begins a program with a name at a load address. -/
def startSource (name : Bytes) (load : Nat) (rest : Bytes) : Bytes :=
  startLine name load ++ byte '\n' :: rest

section StartSource

variable {assembler : Assembler} {name rest : Bytes} {load distance : Nat}
  (named : assembler.isProgramName name = true)
include named

theorem Reading.named_startLine
    (clean : (Reading.ofLines assembler [startLine name load]).context.errors = 0) :
    (Reading.ofLines assembler [startLine name load]).Named name := by
  rw [(Reading.ofLines_startLine named clean).2]
  refine ⟨?_, ?_, ⟨name, some load, .programName, 0, 0⟩, ?_, rfl⟩
  · simp only [Reading.afterPass, Pass.noteLine_context]
    rfl
  · simp only [Reading.afterPass, Pass.noteLine_context]
    rfl
  · simp only [Reading.afterPass, Pass.noteLine_symbols]
    exact Symbol.Table.get?_insert_self .empty _

/-- The lines that begin a program at load addresses some distance apart. -/
theorem Reading.moves_startLine
    (clean : (Reading.ofLines assembler [startLine name load]).context.errors = 0)
    (cleanMoved :
      (Reading.ofLines assembler [startLine name (load + distance)]).context.errors = 0) :
    (Reading.ofLines assembler [startLine name load]).Moves distance
      (Reading.ofLines assembler [startLine name (load + distance)]) := by
  have plain : ∀ load, (Statement.directive .start (loadOperand load)).Plain :=
    fun load => ⟨Directive.noConfusion, by rintro (wrong | wrong) <;> cases wrong⟩
  have context : ∀ load : Nat,
      ((Reading.initial.fresh (startLine name load, 1)).begun name load).context =
        ⟨load, load, name, true, false, false, false, 0, 0⟩ := fun _ => rfl
  have symbols : ∀ load : Nat,
      ((Reading.initial.fresh (startLine name load, 1)).begun name load).symbols =
        Symbol.Table.empty.insert ⟨name, some load, .programName, 0, 0⟩ := fun _ => rfl
  rw [(Reading.ofLines_startLine named clean).2, (Reading.ofLines_startLine named cleanMoved).2]
  simp only [Reading.afterPass]
  refine ⟨?_, ?_, ?_, ?_, ?_⟩
  · simp only [Pass.noteLine_context, context, Context.moved, Nat.cast_add]
  · simp only [Pass.noteLine_symbols, symbols, Symbol.Table.insert_moved, Symbol.moved,
      Option.map_some, Nat.cast_add]
    rfl
  · simp only [Pass.noteLine_fatal]
    rfl
  · simp only [Pass.noteLine_symbols, symbols]
    intro symbol member
    rw [List.mem_singleton.1 member]
  · simp only [Pass.noteLine_line]
    have unaddressed : ((Reading.initial.fresh (startLine name load, 1)).begun name
        load).line.addressed ≠ true := Bool.false_ne_true
    refine .cons ⟨rfl, fun addressed => absurd addressed unaddressed, fun addressed =>
      absurd addressed unaddressed, fun addressed => absurd addressed unaddressed, ?_⟩ .nil
    rintro _ (⟨⟨⟩⟩ | ⟨⟨⟩⟩)
    · exact plain load
    · exact plain _

/-- The parts of a source that begins with a START line and was assembled without an error. -/
theorem Assembler.assembled_startSource {date : Date} {file : ObjectFile}
    (success : (assembler.assemble (startSource name load rest) date).outcome = .ok file)
    (clean : (assembler.assemble (startSource name load rest) date).program.context.errors = 0) :
    ∃ emitted exported, emitted.file = file ∧ emitted.program.context.errors = 0 ∧
      Emits assembler (assembler.parse (startSource name load rest)).program exported emitted ∧
      (Reading.ofLines assembler (startLine name load :: (Lines.read rest).lines)).fatal = none ∧
      (Reading.ofLines assembler (startLine name load :: (Lines.read rest).lines)).context.errors =
        0 ∧
      (Reading.ofLines assembler (startLine name load :: (Lines.read rest).lines)).Closed assembler
        (assembler.parse (startSource name load rest)).program := by
  obtain ⟨faultless, emitted, emission, same, rfl⟩ := assemble_ok success
  rw [same] at clean
  obtain ⟨exported, emits⟩ := assembler.emit_emits emission
  obtain ⟨running, closed⟩ := assembler.parse_running _ emits.running
  have short : (Lines.read (startSource name load rest)).tooLong = false := by
    cases tooLong : (Lines.read (startSource name load rest)).tooLong with
    | false => rfl
    | true =>
      rw [parse, if_pos (by simp [tooLong, running])] at faultless
      cases faultless
  rw [startSource] at running closed short
  have lines := Lines.read_append (fun b member => mem_startLine load named member) rest short
  rw [lines] at running closed
  refine ⟨emitted, exported, rfl, clean, emits, running, ?_, closed⟩
  rw [← closed.errors]
  exact (emits.clean clean).1

end StartSource

/-- The same lines after a START line at two load addresses, none of them a RESET, an equate of an
expression or a marked address constant. If there is no error at either address, the object files
have the same records, at locations that differ by the distance. Absolute words are the same,
relocatable ones differ by the distance in their address fields alone, and the words left to the
linker by the distance as often as the program is added, less how often it is subtracted. -/
theorem Assembler.relocated_of_startSource (assembler : Assembler) (name rest : Bytes)
    (load distance : Nat) (date dateMoved : Date) (file fileMoved : ObjectFile)
    (named : assembler.isProgramName name = true)
    (movable : ∀ line ∈ (Lines.read rest).lines,
      assembler.isMovable (dropTrailing Lines.isCarriageReturn line) = true)
    (success : (assembler.assemble (startSource name load rest) date).outcome = .ok file)
    (successMoved : (assembler.assemble (startSource name (load + distance) rest)
      dateMoved).outcome = .ok fileMoved)
    (clean : (assembler.assemble (startSource name load rest) date).program.context.errors = 0)
    (cleanMoved : (assembler.assemble (startSource name (load + distance) rest)
      dateMoved).program.context.errors = 0) :
    file.Relocated name distance fileMoved := by
  obtain ⟨emitted, exported, rfl, errors, emits, running, read, closed⟩ :=
    assembled_startSource named success clean
  obtain ⟨emittedMoved, exportedMoved, rfl, errorsMoved, emitsMoved, runningMoved, readMoved,
    closedMoved⟩ := assembled_startSource named successMoved cleanMoved
  have early : ∀ load, (Reading.ofLines assembler
      ([startLine name load] ++ (Lines.read rest).lines)).context.errors = 0 →
      (Reading.ofLines assembler [startLine name load]).context.errors = 0 :=
    fun load => Reading.errors_of_append
  have begun := Reading.named_startLine named (early load read)
  have begunMoved := Reading.named_startLine named (early _ readMoved)
  have layout := ((Reading.layout_of_first begun.started).extended (Lines.read rest).lines).1
  have layoutMoved :=
    ((Reading.layout_of_first begunMoved.started).extended (Lines.read rest).lines).1
  have moves := Reading.moves_of_first (Int.natCast_nonneg distance)
    (Reading.moves_startLine named (early load read) (early _ readMoved)) begun.started movable
    runningMoved readMoved
  have whole := begun.extended (Lines.read rest).lines
  have programs := Program.moves_of_readings moves whole layout layoutMoved
    (Reading.ofLines_bounded assembler _) (Reading.ofLines_bounded assembler _) read readMoved
    closed closedMoved
  have program : (assembler.parse (startSource name load rest)).program.context.program = name :=
    (congrArg (·.evaluator.program) closed.scope).trans whole.program
  rw [← program]
  exact Emits.relocated programs emits emitsMoved errors errorsMoved

/-- Lines with an entry and words of all three flags. -/
def movableLines : Bytes :=
  ascii " ENTRY TWO\nONE DAT X=1F\nTWO ADC ONE\n JUMP EQUAL TWO\n JUMP EQUAL *-ONE\n END PROG"

theorem Assembler.relocated_of_movableLines : ∃ file fileMoved,
    (Assembler.assemble {} (startSource (ascii "PROG") 0 movableLines) Date.first).outcome =
        .ok file ∧
      (Assembler.assemble {} (startSource (ascii "PROG") 2 movableLines) Date.first).outcome =
        .ok fileMoved ∧
      file.text.map (·.flag) = [.absolute, .modify, .relocatable, .modify] ∧
      file.Relocated (ascii "PROG") 2 fileMoved := by
  have flags : (Assembler.assemble {} (startSource (ascii "PROG") 0 movableLines)
      Date.first).outcome.toOption.map (·.text.map (·.flag)) =
      some [.absolute, .modify, .relocatable, .modify] := by decide +kernel
  have assembled : (Assembler.assemble {} (startSource (ascii "PROG") 2 movableLines)
      Date.first).outcome.toOption.isSome = true := by decide +kernel
  cases success : (Assembler.assemble {} (startSource (ascii "PROG") 0 movableLines)
      Date.first).outcome with
  | error fault =>
    rw [success] at flags
    cases flags
  | ok file =>
    cases successMoved : (Assembler.assemble {} (startSource (ascii "PROG") 2 movableLines)
        Date.first).outcome with
    | error fault =>
      rw [successMoved] at assembled
      cases assembled
    | ok fileMoved =>
      rw [success] at flags
      refine ⟨file, fileMoved, rfl, rfl, Option.some.inj flags, ?_⟩
      exact Assembler.relocated_of_startSource {} (ascii "PROG") movableLines 0 2 Date.first
        Date.first file fileMoved (by decide +kernel) (by decide +kernel) success successMoved
        (by decide +kernel) (by decide +kernel)

end WordAssembler

import Mathlib.Data.List.Forall2
import WordAssembler.Proofs.Alike

/-!
Operands never move code. What a line with a word says after its command decides the word and the
diagnostics, and nothing else: the places of the lines, the symbols and the line where the first
pass stops are the same for all operands.
-/

set_option autoImplicit false

namespace WordAssembler

/-- Where a line stands: its number, its location, whether it has a word there, and its label. -/
def Line.place (line : Line) : Nat × Int × Bool × Option Bytes :=
  (line.number, line.location, line.addressed, line.label)

theorem Context.uncounted_of_mild (context : Context) {diagnostic : Diagnostic}
    (mild : diagnostic.key.severity ≠ .fatal) :
    (context.count [diagnostic]).uncounted = context.uncounted := by
  simp [Context.uncounted, Context.count, mild]

/-! ### Diagnostics of instructions -/

namespace Instruction

variable {instruction : Instruction} {key : Key} {operation : Word}

theorem controlFault?_mild (fault : instruction.controlFault? = some key) :
    key.severity ≠ .fatal := by
  unfold controlFault? at fault
  dsimp only at fault
  repeat' split at fault
  all_goals cases fault
  all_goals decide

theorem encodeStack_mild (refused : instruction.encodeStack operation = .error key) :
    key.severity ≠ .fatal := by
  unfold encodeStack at refused
  dsimp only at refused
  repeat' split at refused
  all_goals cases refused
  all_goals decide

theorem encodeAddress_mild {range : Key} (mild : range.severity ≠ .fatal)
    (refused : instruction.encodeAddress range operation = .error key) :
    key.severity ≠ .fatal := by
  unfold encodeAddress at refused
  dsimp only at refused
  repeat' split at refused
  all_goals cases refused
  · decide
  · exact mild
  · decide

/-- No instruction is so wrong that the assembly ends. -/
theorem encode_mild {table : Opcodes} (refused : instruction.encode table = .error key) :
    key.severity ≠ .fatal := by
  unfold encode at refused
  split at refused
  · cases refused
    decide
  · split at refused
    · unfold encodeControl at refused
      split at refused
      · rename_i fault
        cases refused
        exact controlFault?_mild fault
      · cases refused
    · exact encodeStack_mild refused
    · exact encodeAddress_mild (by decide) refused
    · exact encodeAddress_mild (by decide) refused
    · unfold encodeShort at refused
      split at refused
      · cases refused
      · cases refused
        decide
    · cases refused

end Instruction

/-! ### Work that moves nothing -/

namespace Pass

/-- What a pass knows of the places of code: the state of the assembly but for its counts, the
symbols, the place of the line, and where the pass stops. -/
structure Frame where
  context : Context
  symbols : Symbol.Table
  place : Nat × Int × Bool × Option Bytes
  fatal : Option (Nat × Key)

def frame (p : Pass) : Frame :=
  ⟨p.context.uncounted, p.symbols, p.line.place, p.fatal.map FatalFault.mark⟩

theorem frame_eq_iff {p q : Pass} : q.frame = p.frame ↔
    q.context.uncounted = p.context.uncounted ∧ q.symbols = p.symbols ∧
      q.line.place = p.line.place ∧ q.fatal.map FatalFault.mark = p.fatal.map FatalFault.mark := by
  simp only [frame, Frame.mk.injEq]

section

variable (p : Pass) (assembler : Assembler)

theorem report_frame {key : Key} (mild : key.severity ≠ .fatal) :
    (p.report assembler key).frame = p.frame := by
  have counted : (p.context.count [assembler.catalog.lookup key]).uncounted =
      p.context.uncounted := p.context.uncounted_of_mild (by rwa [Catalog.lookup_key])
  simp only [frame, report_context, report_symbols, report_line, report_fatal, counted,
    if_neg mild]
  rfl

theorem fail_frame {key : Key} (mild : key.severity ≠ .fatal) :
    (p.fail assembler key).frame = p.frame :=
  p.report_frame assembler mild

theorem readOperand_frame (rest : Bytes) :
    (p.readOperand assembler rest).2.2.frame = p.frame := by
  have commented : (if (Token.next rest).1.kind = .comment then
      p.setComment (some (Token.next rest).1.text) else p).frame = p.frame := by
    split <;> rfl
  unfold readOperand
  dsimp only
  split
  · rw [report_frame _ assembler (by decide), commented]
  · exact commented

theorem readFunction_frame (group : Group) (rest : Bytes) :
    (p.readFunction assembler group rest).2.2.frame = p.frame := by
  unfold readFunction
  dsimp only
  split
  · rfl
  · exact p.readOperand_frame assembler _

theorem encodeLine_frame (instruction : Instruction) :
    (p.encodeLine assembler instruction).frame = p.frame := by
  unfold encodeLine
  split
  · exact p.fail_frame assembler (by decide)
  · split
    · rfl
    · dsimp only
      split
      · rfl
      · rename_i refused
        exact fail_frame _ assembler (Instruction.encode_mild refused)

theorem readTrailing_frame (rest : Bytes) :
    (p.readTrailing assembler rest).frame = p.frame := by
  unfold readTrailing
  dsimp only
  split
  · rfl
  · rfl
  · exact p.report_frame assembler (by decide)

theorem finishLine_frame (rest : Bytes) :
    (p.finishLine assembler rest).frame = p.frame := by
  unfold finishLine
  dsimp only
  split
  · rfl
  · split
    · exact p.readTrailing_frame assembler rest
    · exact p.readTrailing_frame assembler rest

end

theorem noteLine_frame (p : Pass) (assembler : Assembler) :
    (p.noteLine assembler).frame = p.frame := by
  rw [frame, noteLine_context, noteLine_symbols, noteLine_line, noteLine_fatal, frame]

theorem Follows.number {p q : Pass} (follows : Follows p q) :
    q.line.number = p.line.number := by
  obtain ⟨_, reports⟩ := follows
  exact reports.number

/-! ### Two passes at one place -/

theorem Alike.frame {p q : Pass} (alike : Alike p q)
    (number : q.line.number = p.line.number) : q.frame = p.frame := by
  have place : q.line.place.2 = p.line.place.2 :=
    (congrArg (fun line : Line => line.place.2) alike.line :)
  exact frame_eq_iff.2
    ⟨alike.context, alike.symbols, Prod.ext number place, alike.mark number⟩

section

variable {p q : Pass} (same : q.frame = p.frame) (assembler : Assembler)
include same

theorem report_congr (key : Key) :
    (q.report assembler key).frame = (p.report assembler key).frame := by
  obtain ⟨context, symbols, place, fatal⟩ := frame_eq_iff.1 same
  have number : q.line.number = p.line.number := congrArg Prod.fst place
  refine frame_eq_iff.2 ⟨?_, ?_, ?_, ?_⟩
  · rw [report_context, report_context, Context.uncounted_count context]
  · rw [report_symbols, report_symbols, symbols]
  · rw [report_line, report_line]
    exact place
  · rw [report_fatal, report_fatal]
    split
    · rw [Option.map_or, Option.map_or, fatal, Option.map_some, Option.map_some, FatalFault.mark,
        FatalFault.mark, number]
    · exact fatal

theorem defineOwnLabel_congr :
    (q.defineOwnLabel assembler).frame = (p.defineOwnLabel assembler).frame := by
  obtain ⟨context, symbols, place, fatal⟩ := frame_eq_iff.1 same
  have label : q.line.label = p.line.label := congrArg (·.2.2.2) place
  have location : q.context.location = p.context.location :=
    (congrArg Context.location context :)
  have defined : ∀ table : Symbol.Table,
      ({ q with symbols := table } : Pass).frame =
        ({ p with symbols := table } : Pass).frame := by
    intro table
    exact frame_eq_iff.2 ⟨context, rfl, place, fatal⟩
  unfold defineOwnLabel
  rw [label, location]
  split
  · unfold defineLabel
    rw [symbols]
    split
    · exact defined _
    · split
      · exact defined _
      · exact report_congr same assembler _
  · exact same

theorem occupy_congr : q.occupy.frame = p.occupy.frame := by
  obtain ⟨context, symbols, place, fatal⟩ := frame_eq_iff.1 same
  have location : q.context.location = p.context.location :=
    (congrArg Context.location context :)
  have counter : ∀ context : Context, { context with location := context.location + 1 }.uncounted =
      { context.uncounted with location := context.uncounted.location + 1 } := fun _ => rfl
  refine frame_eq_iff.2 ⟨?_, symbols, ?_, fatal⟩
  · rw [occupy, occupy, counter, counter, context]
  · simp only [occupy, Line.place, Prod.mk.injEq, true_and] at place ⊢
    exact ⟨place.1, location, place.2.2.2⟩

/-- A word is given or refused whatever is to be done with it. -/
theorem allocate_congr {next other : Pass → Pass} (kept : ∀ p, (next p).frame = p.frame)
    (left : ∀ p, (other p).frame = p.frame) :
    (q.allocate assembler other).frame = (p.allocate assembler next).frame := by
  have location : q.context.location = p.context.location :=
    congrArg (fun frame : Frame => frame.context.location) same
  unfold allocate
  rw [location]
  split
  · exact report_congr same assembler _
  · rw [kept, left]
    exact occupy_congr same

theorem readInstruction_congr (group : Group) (rest other : Bytes) :
    (q.readInstruction assembler group other).1.frame =
      (p.readInstruction assembler group rest).1.frame := by
  have read : (q.readFunction assembler group other).2.2.frame =
      (p.readFunction assembler group rest).2.2.frame := by
    rw [readFunction_frame, readFunction_frame, same]
  refine allocate_congr (defineOwnLabel_congr ?_ assembler) assembler
    (fun p => p.encodeLine_frame assembler _) fun p => p.encodeLine_frame assembler _
  exact read

end

end Pass

/-! ### Lines with a word -/

/-- The directive gives its line a word. -/
def Directive.takesWord : Directive → Bool
  | .dat | .adc | .adce | .nop => true
  | _ => false

namespace Pass

variable {p q : Pass} (same : q.frame = p.frame) (assembler : Assembler)
include same

theorem applyDirective_congr {directive : Directive} (takes : directive.takesWord = true)
    (operand other : Operand) :
    (q.applyDirective assembler directive other).frame =
      (p.applyDirective assembler directive operand).frame := by
  have labelled := defineOwnLabel_congr same assembler
  have data : ∀ (operand : Operand) (p : Pass), (if operand.kind.isLiteral then
      p.setWord (Word.ofInt operand.value) else if operand.kind = .malformed then p
      else p.report assembler .dataOperand).frame = p.frame := by
    intro operand p
    split
    · rfl
    · split
      · rfl
      · exact p.report_frame assembler (by decide)
  have constant : ∀ (operand : Operand) (p : Pass), (if operand.kind = .none then
      p.report assembler .operandRequired else p).frame = p.frame := by
    intro operand p
    split
    · exact p.report_frame assembler (by decide)
    · rfl
  have idle : ∀ (operand : Operand) (p : Pass), (if operand.kind = .none then
      p.setWord Line.idleWord else
      (p.setWord Line.idleWord).report assembler .noOperand).frame = p.frame := by
    intro operand p
    split
    · rfl
    · exact (p.setWord Line.idleWord).report_frame assembler (by decide)
  cases directive with
  | dat => exact (allocate_congr labelled assembler (data operand) (data other) :)
  | adc => exact (allocate_congr labelled assembler (constant operand) (constant other) :)
  | adce => exact (allocate_congr labelled assembler (constant operand) (constant other) :)
  | nop => exact (allocate_congr labelled assembler (idle operand) (idle other) :)
  | start => cases takes
  | finish => cases takes
  | equ => cases takes
  | eque => cases takes
  | entry => cases takes
  | extrn => cases takes
  | reset => cases takes

theorem readDirective_congr {directive : Directive} (takes : directive.takesWord = true)
    (rest other : Bytes) :
    (q.readDirective assembler directive other).1.frame =
      (p.readDirective assembler directive rest).1.frame := by
  refine applyDirective_congr ?_ assembler takes _ _
  have read : (q.readOperand assembler other).2.2.frame =
      (p.readOperand assembler rest).2.2.frame := by
    rw [readOperand_frame, readOperand_frame, same]
  exact read

end Pass

namespace Assembler

variable {assembler : Assembler}

/-- The command of a name gives its line a word. -/
def takesWord (assembler : Assembler) (name : Bytes) : Bool :=
  assembler.opcodes.isGroup name || (assembler.directives.lookup? name).any Directive.takesWord

/-- Two source lines have the same label column and the same command, which gives a word. What
follows the command and its separator may differ. -/
structure SameCommand (assembler : Assembler) (first second : Bytes) : Prop where
  label : (assembler.columns second).label = (assembler.columns first).label
  command : (assembler.columns second).command = (assembler.columns first).command
  word : assembler.takesWord (assembler.columns first).command.text = true

theorem kind_of_takesWord {source : Bytes}
    (takes : assembler.takesWord (assembler.columns source).command.text = true) :
    (assembler.columns source).command.kind ≠ .empty ∧
      (assembler.columns source).command.kind ≠ .comment := by
  have groups : ∀ group ∈ Group.all, group.name ≠ [] ∧ group.name.head? ≠ some (byte ':') := by
    decide
  have directives : ∀ directive : Directive,
      directive.name ≠ [] ∧ directive.name.head? ≠ some (byte ':') := by
    intro directive
    cases directive <;> decide
  simp only [takesWord, Opcodes.isGroup, Opcodes.group?, Directives.lookup?, Bool.or_eq_true,
    Option.isSome_iff_exists, Option.any_eq_true, Option.filter_eq_some_iff] at takes
  rcases takes with ⟨group, parsed, _⟩ | ⟨directive, ⟨parsed, _⟩, _⟩
  · have name : group.name = upper (assembler.columns source).command.text := by
      simpa using List.find?_some parsed
    obtain ⟨named, word⟩ := groups group (List.mem_of_find?_eq_some parsed)
    rw [name] at named word
    exact kind_of_upper named word
  · obtain ⟨named, word⟩ := directives directive
    rw [← Directive.upper_of_parse? parsed] at named word
    exact kind_of_upper named word

/-- The command of a name that gives a word, unless the name is not written as one. -/
theorem command?_of_takesWord {token : Token} (takes : assembler.takesWord token.text = true) :
    (∃ group, assembler.command? token = some (.group group)) ∨
      (∃ directive, directive.takesWord = true ∧
        assembler.command? token = some (.directive directive)) ∨
      assembler.command? token = none := by
  unfold command?
  split
  · cases found : assembler.opcodes.group? token.text with
    | some group => exact Or.inl ⟨group, rfl⟩
    | none =>
      rw [takesWord, Opcodes.isGroup, found] at takes
      obtain ⟨directive, named, word⟩ := (Option.any_eq_true _ _).1 takes
      exact Or.inr (Or.inl ⟨directive, word, by rw [named]; rfl⟩)
  · exact Or.inr (Or.inr rfl)

end Assembler

namespace Pass

variable {p q : Pass} {assembler : Assembler}

theorem Alike.readCommand_frame (alike : Alike p q) (number : q.line.number = p.line.number)
    (same : assembler.SameCommand p.line.source q.line.source) :
    (q.readCommand assembler).frame = (p.readCommand assembler).frame := by
  have labelled := alike.readLabel assembler (assembler.columns p.line.source).label
  have numbered := (readLabel_follows q assembler (assembler.columns p.line.source).label).number
  rw [number, ← (readLabel_follows p assembler (assembler.columns p.line.source).label).number]
    at numbered
  have level := labelled.frame numbered
  rcases Assembler.command?_of_takesWord same.word with
    ⟨group, found⟩ | ⟨directive, word, found⟩ | found
  · rw [readCommand_group rfl found, readCommand_group rfl (same.command ▸ found), same.label,
      finishLine_frame, finishLine_frame]
    exact readInstruction_congr level assembler group _ _
  · rw [readCommand_directive rfl found, readCommand_directive rfl (same.command ▸ found),
      same.label, finishLine_frame, finishLine_frame]
    exact readDirective_congr level assembler word _ _
  · have unknown := labelled.readUnknown assembler same.label (Or.inl same.command)
    rw [readCommand_unknown rfl found, readCommand_unknown rfl (same.command ▸ found), same.label]
    refine unknown.frame ?_
    rw [(readUnknown_follows _ assembler _).number, (readUnknown_follows _ assembler _).number,
      numbered]

/-- A line with a word is read to the same place whatever follows its command. -/
theorem Alike.readLine_frame (alike : Alike p q) (number : q.line.number = p.line.number)
    (same : assembler.SameCommand p.line.source q.line.source) :
    (q.readLine assembler).frame = (p.readLine assembler).frame := by
  have level := alike.frame number
  have ended : q.context.ended = p.context.ended := (congrArg Context.ended alike.context :)
  have start : assembler.isStart q.line.source = assembler.isStart p.line.source := by
    rw [Assembler.isStart, Assembler.isStart, same.command]
  obtain ⟨filled, uncommented⟩ := Assembler.kind_of_takesWord same.word
  have first := Assembler.isBlank_of_kind filled uncommented
  rw [← same.command] at filled uncommented
  have second := Assembler.isBlank_of_kind filled uncommented
  unfold Pass.readLine
  -- Neither line is blank, so both are refused for one reason, or both are read for their command.
  simp only [number, start, ended, first, second]
  split
  · exact report_congr level assembler _
  · split
    · exact report_congr level assembler _
    · rename_i open_
      rw [if_neg (by simpa using open_), if_neg (by simpa using open_)]
      exact alike.readCommand_frame number same

end Pass

/-! ### Sources -/

namespace Lines

/-- The carriage return that ends a line is no more than one of those dropped from a source. -/
theorem dropTrailing_dropReturn (line : Bytes) :
    dropTrailing isCarriageReturn (dropReturn line) = dropTrailing isCarriageReturn line := by
  unfold dropReturn
  split
  · rename_i returned
    obtain ⟨init, rfl⟩ := List.getLast?_eq_some_iff.1 returned
    rw [List.dropLast_concat, dropTrailing_concat rfl]
  · rfl

/-- Of lines that correspond and fit alike, those up to the first that is too long correspond. -/
theorem forall₂_takeWhile {relates : Bytes → Bytes → Prop}
    (fit : ∀ {first second}, relates first second → fits second = fits first)
    {first second : List Bytes} (related : List.Forall₂ relates first second) :
    List.Forall₂ relates (first.takeWhile fits) (second.takeWhile fits) ∧
      second.all fits = first.all fits := by
  induction related with
  | nil => exact ⟨.nil, rfl⟩
  | @cons line other lines others here _ ih =>
    simp only [List.takeWhile_cons, List.all_cons, fit here, ih.2]
    refine ⟨?_, trivial⟩
    split
    · exact .cons here ih.1
    · exact .nil

end Lines

namespace Assembler

/-- Two lines of sources are the same, or have the same command with a word and differ at most in
what follows it; then neither is too long. -/
def DifferInOperands (assembler : Assembler) (first second : Bytes) : Prop :=
  second = first ∨ Lines.fits first = true ∧ Lines.fits second = true ∧
    assembler.SameCommand (Line.trimmed first) (Line.trimmed second)

/-- Two source lines that stand for the same up to operands. -/
def SameLine (assembler : Assembler) (first second : Bytes) : Prop :=
  Line.trimmed second = Line.trimmed first ∨
    assembler.SameCommand (Line.trimmed first) (Line.trimmed second)

variable {assembler : Assembler} {first second : Bytes}

theorem DifferInOperands.fits (differ : assembler.DifferInOperands first second) :
    Lines.fits second = Lines.fits first := by
  rcases differ with rfl | ⟨short, other, _⟩
  · rfl
  · rw [short, other]

theorem DifferInOperands.sameLine (differ : assembler.DifferInOperands first second) :
    assembler.SameLine (Lines.dropReturn first) (Lines.dropReturn second) := by
  simp only [SameLine, Line.trimmed, Lines.dropTrailing_dropReturn]
  rcases differ with rfl | ⟨_, _, same⟩
  · exact Or.inl rfl
  · exact Or.inr same

/-- Text after the command and its separator may be any that fits. -/
theorem differInOperands_of_tail {lead : Bytes} {stop : UInt8}
    (separator : Token.isSeparator stop = true)
    (word : assembler.takesWord (assembler.columns lead).command.text = true)
    {tail other : Bytes} (short : Lines.fits (lead ++ stop :: tail) = true)
    (fit : Lines.fits (lead ++ stop :: other) = true) :
    assembler.DifferInOperands (lead ++ stop :: tail) (lead ++ stop :: other) := by
  have kept : Lines.isCarriageReturn stop = false := by
    simp only [Token.isSeparator, Bool.or_eq_true, beq_iff_eq] at separator
    rcases separator with (rfl | rfl) | rfl <;> rfl
  obtain ⟨filled, uncommented⟩ := kind_of_takesWord word
  have columns := columns_append separator filled uncommented
  refine Or.inr ⟨short, fit, ?_, ?_, ?_⟩
  · rw [Line.trimmed, Line.trimmed, dropTrailing_append_stop kept, dropTrailing_append_stop kept,
      (columns _).1, (columns _).1]
  · rw [Line.trimmed, Line.trimmed, dropTrailing_append_stop kept, dropTrailing_append_stop kept,
      (columns _).2, (columns _).2]
  · rwa [Line.trimmed, dropTrailing_append_stop kept, (columns _).2]

end Assembler

namespace Reading

/-- Two readings whose lines stand at the same places, with the same symbols and state but for the
counts, and that stop at the same line for the same reason if they do. -/
structure SamePlaces (first second : Reading) : Prop where
  context : second.context.uncounted = first.context.uncounted
  symbols : second.symbols = first.symbols
  places : second.lines.map Line.place = first.lines.map Line.place
  fatal : second.fatal.map FatalFault.mark = first.fatal.map FatalFault.mark

variable {assembler : Assembler} {first second : Reading}

theorem SamePlaces.afterPass {p q : Pass} (same : q.frame = p.frame)
    {lines others : List Line} (places : others.map Line.place = lines.map Line.place) :
    (afterPass p lines).SamePlaces (afterPass q others) := by
  obtain ⟨context, symbols, place, fatal⟩ := Pass.frame_eq_iff.1 same
  refine ⟨context, symbols, ?_, fatal⟩
  simp only [Reading.afterPass, List.map_cons, place, places]

theorem SamePlaces.halted (same : first.SamePlaces second) :
    second.fatal.isSome = first.fatal.isSome := by
  rw [← Option.isSome_map (f := FatalFault.mark), same.fatal, Option.isSome_map]

theorem SamePlaces.pass (same : first.SamePlaces second) {line other : Line}
    (place : other.place = line.place) :
    (second.pass other).frame = (first.pass line).frame :=
  Pass.frame_eq_iff.2 ⟨same.context, same.symbols, place, same.fatal⟩

/-- A line keeps two readings at the same places. -/
theorem SamePlaces.add (same : first.SamePlaces second) {source other : Bytes}
    (line : assembler.SameLine source other) (number : Nat) :
    (add assembler first (source, number)).SamePlaces
      (Reading.add assembler second (other, number)) := by
  cases halted : first.fatal.isSome with
  | true =>
    rw [add_of_halted assembler halted, add_of_halted assembler (same.halted.trans halted)]
    exact same
  | false =>
    have running : first.fatal = none := by simpa using halted
    have open_ : second.fatal = none := by simpa using same.halted.trans halted
    have alike := fresh_alike same.context same.symbols running open_ (source, number)
      (other, number)
    have stepped : (second.stepped assembler (other, number)).frame =
        (first.stepped assembler (source, number)).frame := by
      rcases line with trimmed | command
      · have source_eq : (second.fresh (other, number)).line.source =
            (first.fresh (source, number)).line.source := trimmed
        have read : Commented (first.fresh (source, number)).line.source
            (second.fresh (other, number)).line.source := by
          rw [source_eq]
          exact .same
        have numbered : ((second.fresh (other, number)).readLine assembler).line.number =
            ((first.fresh (source, number)).readLine assembler).line.number := by
          rw [(Pass.readLine_follows _ assembler).number,
            (Pass.readLine_follows _ assembler).number]
          rfl
        refine (alike.readLine assembler read ?_).frame numbered
        rw [source_eq]
        exact Iff.rfl
      · exact alike.readLine_frame rfl command
    rw [add_of_running assembler running, add_of_running assembler open_]
    refine SamePlaces.afterPass ?_ same.places
    rw [Pass.noteLine_frame, Pass.noteLine_frame, stepped]

theorem SamePlaces.foldl {sources others : List Bytes}
    (lines : List.Forall₂ assembler.SameLine sources others) (number : Nat)
    (same : first.SamePlaces second) :
    ((sources.zipIdx number).foldl (Reading.add assembler) first).SamePlaces
      ((others.zipIdx number).foldl (Reading.add assembler) second) := by
  induction lines generalizing number first second with
  | nil => exact same
  | cons here _ ih =>
    simp only [List.zipIdx_cons, List.foldl_cons]
    exact ih (number + 1) (same.add here number)

/-- Sources that differ in operands are read to the same places. -/
theorem samePlaces_ofLines {sources others : List Bytes}
    (lines : List.Forall₂ assembler.SameLine sources others) :
    (ofLines assembler sources).SamePlaces (ofLines assembler others) :=
  SamePlaces.foldl lines 1 ⟨rfl, rfl, rfl, rfl⟩

theorem SamePlaces.reportLast (same : first.SamePlaces second) (key : Key) :
    (first.reportLast assembler key).SamePlaces (second.reportLast assembler key) := by
  have places := same.places
  unfold Reading.reportLast
  cases lines : first.lines with
  | nil =>
    rw [lines, List.map_nil, List.map_eq_nil_iff] at places
    rw [places]
    exact .afterPass (Pass.report_congr (same.pass rfl) assembler key) rfl
  | cons last earlier =>
    rw [lines, List.map_cons, List.map_eq_cons_iff] at places
    obtain ⟨other, others, read, place, before⟩ := places
    rw [read]
    exact .afterPass (Pass.report_congr (same.pass place) assembler key) before

theorem SamePlaces.finish (same : first.SamePlaces second) (assembler : Assembler) :
    (first.finish assembler).SamePlaces (second.finish assembler) := by
  have ended : second.context.ended = first.context.ended :=
    (congrArg Context.ended same.context :)
  have empty : second.lines.isEmpty = first.lines.isEmpty := by
    rw [← List.isEmpty_map (f := Line.place), same.places, List.isEmpty_map]
  unfold Reading.finish
  rw [same.halted, empty, ended]
  split
  · exact same
  · split
    · exact same.reportLast _
    · split
      · exact same
      · exact same.reportLast _

end Reading

/-- The line and the key of a fatal fault. -/
def ParseFault.mark : ParseFault → Option (Nat × Key)
  | .fatal fault => some (FatalFault.mark fault)
  | .tooLong => none

/-- Sources that differ only in the operands of lines with a word stop at the same line with the
same fatal diagnostic or not at all, and otherwise agree on the places and labels of all lines, on
the symbols, and on the state of the assembly but for the numbers of errors and warnings. -/
theorem Assembler.operands_move_nothing (assembler : Assembler) {first second : Bytes}
    (operands : List.Forall₂ assembler.DifferInOperands (Lines.runs first) (Lines.runs second)) :
    (assembler.parse second).fault.map ParseFault.mark =
        (assembler.parse first).fault.map ParseFault.mark ∧
      (assembler.parse second).program.lines.map Line.place =
        (assembler.parse first).program.lines.map Line.place ∧
      (assembler.parse second).program.symbols = (assembler.parse first).program.symbols ∧
      (assembler.parse second).program.context.uncounted =
        (assembler.parse first).program.context.uncounted := by
  obtain ⟨fitting, short⟩ := Lines.forall₂_takeWhile DifferInOperands.fits operands
  have lines : List.Forall₂ assembler.SameLine (Lines.read first).lines
      (Lines.read second).lines := by
    simp only [Lines.read, List.forall₂_map_left_iff, List.forall₂_map_right_iff]
    exact fitting.imp fun _ _ differ => differ.sameLine
  have tooLong : (Lines.read second).tooLong = (Lines.read first).tooLong := by
    rw [Lines.read, Lines.read, short]
  have same := Reading.samePlaces_ofLines lines
  have running : (Reading.ofLines assembler (Lines.read second).lines).fatal.isNone =
      (Reading.ofLines assembler (Lines.read first).lines).fatal.isNone := by
    rw [← Option.not_isSome, same.halted, Option.not_isSome]
  unfold parse
  dsimp only
  rw [tooLong, running]
  split
  · refine ⟨rfl, ?_, same.symbols, same.context⟩
    simp only [Reading.program, List.map_reverse, same.places]
  · have finished := same.finish assembler
    refine ⟨?_, ?_, finished.symbols, finished.context⟩
    · have marks : ∀ fatal : Option FatalFault, (fatal.map ParseFault.fatal).map ParseFault.mark =
          (fatal.map FatalFault.mark).map some := by
        intro fatal
        cases fatal <;> rfl
      rw [marks, marks, finished.fatal]
    · simp only [Reading.program, List.map_reverse, finished.places]

/-- A source with a word of data, an instruction and an address constant. -/
def wordsSource : Bytes :=
  ascii "PROG START 0\nHere DAT 5\n JUMP EQUAL Here\nThere ADC Here+1\n END PROG"

/-- The source with nonsense for operands. -/
def nonsenseSource : Bytes :=
  ascii "PROG START 0\nHere DAT :5\n JUMP ?,,\nThere ADC X=? 7 7\n END PROG"

theorem Assembler.operands_move_nothing_nonsenseSource :
    List.Forall₂ (Assembler.DifferInOperands {}) (Lines.runs wordsSource)
        (Lines.runs nonsenseSource) ∧
      (Assembler.parse {} nonsenseSource).program.context.errors = 3 ∧
      (Assembler.parse {} nonsenseSource).program.lines.map Line.place =
        (Assembler.parse {} wordsSource).program.lines.map Line.place ∧
      (Assembler.parse {} nonsenseSource).program.symbols =
        (Assembler.parse {} wordsSource).program.symbols := by
  have words : Lines.runs wordsSource = [ascii "PROG START 0", ascii "Here DAT" ++ ascii " 5",
      ascii " JUMP" ++ ascii " EQUAL Here", ascii "There ADC" ++ ascii " Here+1",
      ascii " END PROG"] := by decide +kernel
  have nonsense : Lines.runs nonsenseSource = [ascii "PROG START 0",
      ascii "Here DAT" ++ ascii " :5", ascii " JUMP" ++ ascii " ?,,",
      ascii "There ADC" ++ ascii " X=? 7 7", ascii " END PROG"] := by decide +kernel
  have operands : List.Forall₂ (Assembler.DifferInOperands {}) (Lines.runs wordsSource)
      (Lines.runs nonsenseSource) := by
    rw [words, nonsense]
    refine .cons (Or.inl rfl) (.cons ?_ (.cons ?_ (.cons ?_ (.cons (Or.inl rfl) .nil))))
    all_goals exact differInOperands_of_tail rfl (by decide +kernel) (by decide) (by decide)
  obtain ⟨_, places, symbols, _⟩ := Assembler.operands_move_nothing {} operands
  exact ⟨operands, by decide +kernel, places, symbols⟩

end WordAssembler

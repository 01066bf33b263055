import Mathlib.Data.List.InsertIdx
import WordAssembler.Proofs.Ahead
import WordAssembler.Proofs.Comments
import WordAssembler.Proofs.Entries
import WordAssembler.Proofs.Names
import WordAssembler.Proofs.Tallies

/-!
ENTRY and EXTRN lines may stand anywhere. Two sources have the same lines but for a declaration that
stands in two places after the first line. If nothing is said of any line of either, both assemble
to the same object file: between the two places one reading has the declaration ahead of the other,
at the second place the other catches up, and the declaration itself puts nothing into the file.
-/

set_option autoImplicit false

namespace WordAssembler

/-! ### Lines that the object file is made from -/

namespace Line

/-- The line has a word, or moves the location counter. -/
def contributes (line : Line) : Bool :=
  line.addressed || line.directive?.any (·.1 == .reset)

/-- What the object file is made from: the lines that contribute to it, in order, without their
number, text and comment. -/
def contributions (lines : List Line) : List Line := (lines.filter contributes).map bare

theorem contributions_cons (line : Line) (lines : List Line) : contributions (line :: lines) =
    if line.contributes then line.bare :: contributions lines else contributions lines := by
  unfold contributions
  rw [List.filter_cons]
  split <;> rfl

theorem contributions_reverse (lines : List Line) :
    contributions lines.reverse = (contributions lines).reverse := by
  unfold contributions
  rw [List.filter_reverse, List.map_reverse]

theorem contributes_of_bare {first second : Line} (same : second.bare = first.bare) :
    second.contributes = first.contributes :=
  (congrArg contributes same :)

/-- What only lines that contribute give, whatever their number, text and comment. -/
theorem filterMap_contributions {β : Type} {give : Line → Option β}
    (bare : ∀ line, give line.bare = give line)
    (silent : ∀ line, line.contributes = false → give line = none) (lines : List Line) :
    (contributions lines).filterMap give = lines.filterMap give := by
  induction lines with
  | nil => rfl
  | cons line lines ih =>
    rw [contributions_cons]
    cases gives : line.contributes with
    | false =>
      rw [if_neg (by simp), ih, List.filterMap_cons_none (silent line gives)]
    | true => rw [if_pos rfl, List.filterMap_cons, List.filterMap_cons, bare, ih]

end Line

namespace Scope

variable (scope : Scope) (assembler : Assembler)

theorem linking?_contributions (lines : List Line) :
    (Line.contributions lines).filterMap scope.linking? = lines.filterMap scope.linking? := by
  refine Line.filterMap_contributions (fun _ => rfl) (fun line silent => ?_) lines
  obtain ⟨unaddressed, other⟩ := Bool.or_eq_false_iff.1 silent
  unfold linking? Emission.resetLinking?
  rw [if_neg (by simp [unaddressed])]
  split
  · rename_i operand said
    rw [said] at other
    cases other
  · rfl

theorem modification?_contributions (lines : List Line) :
    (Line.contributions lines).filterMap scope.modification? =
      lines.filterMap scope.modification? := by
  refine Line.filterMap_contributions (fun _ => rfl) (fun line silent => ?_) lines
  rw [modification?, if_neg (by simp [(Bool.or_eq_false_iff.1 silent).1])]

theorem record_contributions (lines : List Line) :
    ((Line.contributions lines).filter (·.addressed)).map (scope.record assembler) =
      (lines.filter (·.addressed)).map (scope.record assembler) := by
  have selected : ∀ lines : List Line,
      (lines.filter (·.addressed)).map (scope.record assembler) = lines.filterMap fun line =>
        if line.addressed then some (scope.record assembler line) else none := by
    intro lines
    induction lines with
    | nil => rfl
    | cons line lines ih => cases addressed : line.addressed <;> simp [addressed, ih]
  rw [selected, selected]
  refine Line.filterMap_contributions (fun line => ?_) (fun line silent => ?_) lines
  · rw [record_bare]
    rfl
  · rw [if_neg (by simp [(Bool.or_eq_false_iff.1 silent).1])]

end Scope

/-- The object file is told by the symbols, the state of the assembly and the lines that contribute,
if no entry is without an address. -/
theorem Assembler.file_of_contributions {assembler : Assembler} {program other : Program}
    {date : Date} {emitted another : Emitted}
    (success : assembler.emit program date = .ok emitted)
    (again : assembler.emit other date = .ok another)
    (clean : emitted.program.context.errors = 0) (neat : another.program.context.errors = 0)
    (context : other.context.uncounted = program.context.uncounted)
    (symbols : other.symbols = program.symbols)
    (lines : Line.contributions other.lines = Line.contributions program.lines) :
    another.file = emitted.file := by
  have emits := assembler.emit_exported success
  have reemits := assembler.emit_exported again
  have exported := (emits.clean clean).2.1
  have reexported := (reemits.clean neat).2.1
  have name : other.context.program = program.context.program :=
    (congrArg Context.program context :)
  have start : other.context.start = program.context.start := (congrArg Context.start context :)
  have location : other.context.location = program.context.location :=
    (congrArg Context.location context :)
  have scope : other.scope = program.scope := by
    unfold Program.scope
    rw [symbols, name, start, location]
  have text : another.file.text = emitted.file.text := by
    rw [emits.text, reemits.text, exported, reexported, scope, ← Scope.record_contributions,
      lines, Scope.record_contributions]
  have modifications : another.file.modifications = emitted.file.modifications := by
    rw [emits.modifications, reemits.modifications, exported, reexported, scope,
      ← Scope.modification?_contributions, lines, Scope.modification?_contributions]
  have linking : another.file.linking = emitted.file.linking := by
    rw [emits.linking, reemits.linking, exported, reexported, scope, symbols, name,
      ← Scope.linking?_contributions, lines, Scope.linking?_contributions]
  obtain ⟨_, counted, _⟩ := emits.context
  obtain ⟨_, recounted, _⟩ := reemits.context
  have stated : another.program.context.program = emitted.program.context.program ∧
      another.program.context.start = emitted.program.context.start ∧
      another.program.context.location = emitted.program.context.location := by
    rw [counted, recounted]
    exact ⟨name, start, location⟩
  obtain ⟨rfl, emission⟩ := emit_of_uncounted context success
  rw [again] at emission
  cases emission
  have text := List.reverse_inj.1 text
  have modifications := List.reverse_inj.1 modifications
  have linking := List.reverse_inj.1 linking
  obtain ⟨name, start, location⟩ := stated
  simp only [Emission.program] at name start location
  simp only [Emission.file, Emission.header, Context.length, name, start, location, linking, text,
    modifications]

/-! ### A declaration by itself -/

/-- A name is declared by a directive: made an entry, or taken as external. -/
inductive Symbol.Table.Publishes (label : Bytes) (table next : Symbol.Table) : Directive → Prop
  | entry (exports : table.Exports label next) : Publishes label table next .entry
  | external (imports : table.Imports label next) : Publishes label table next .extrn

namespace Symbol.Table

variable {label : Bytes} {table next first second last : Table} {directive : Directive}

/-- A table in which the name is declared is ahead of the table in which it is not. -/
theorem Publishes.ahead (publishes : table.Publishes label next directive)
    (labelled : table.Labelled) :
    next.Ahead label table := by
  have inserted : ∀ symbol : Symbol, symbol.label = label →
      Symbol.Ahead label (some symbol) (table.get? label) →
      (table.insert symbol).Ahead label table := by
    intro symbol named known
    refine ⟨fun name other => ?_, ?_⟩
    · rw [get?_insert_of_ne (by rw [named]; exact Ne.symm other)]
    · rwa [get?_insert, if_pos named]
  cases publishes with
  | entry exports =>
    cases exports with
    | new absent =>
      apply inserted _ rfl
      rw [absent]
      exact .absent .entry (Or.inl rfl)
    | promote symbol found plain =>
      have named : symbol.label = label := label_of_get? found
      apply inserted { symbol with usage := .entry } named
      rw [found]
      exact .located symbol plain (labelled symbol (mem_of_get? found) plain)
    | already => exact .refl label _
  | external imports =>
    cases imports with
    | new absent =>
      apply inserted _ rfl
      rw [absent]
      exact .absent .external (Or.inr rfl)

/-- A program has no such name. -/
theorem Publishes.free (publishes : table.Publishes label next directive)
    {symbol : Symbol} (found : table.get? label = some symbol) : symbol.usage ≠ .programName := by
  intro program
  cases publishes with
  | entry exports =>
    cases exports with
    | new absent =>
      rw [absent] at found
      cases found
    | promote other known plain =>
      rw [known] at found
      cases found
      rw [program] at plain
      cases plain
    | already other known entry =>
      rw [known] at found
      cases found
      rw [program] at entry
      cases entry
  | external imports =>
    cases imports with
    | new absent =>
      rw [absent] at found
      cases found

/-- The table that was behind has the name declared too, and is the other one. -/
theorem Ahead.catch_up (ahead : first.Ahead label second)
    (publishes : table.Publishes label next directive) (later : next.Extends first)
    (again : second.Publishes label last directive) : last = first := by
  cases publishes with
  | entry exports =>
    obtain ⟨symbol, found, entry⟩ : ∃ symbol, next.get? label = some symbol ∧
        symbol.usage = .entry := by
      cases exports with
      | new absent => exact ⟨_, get?_insert_self table ⟨label, none, .entry, 0, 0⟩, rfl⟩
      | promote symbol known _ =>
        have named : symbol.label = label := label_of_get? known
        exact ⟨{ symbol with usage := .entry }, by rw [get?_insert, if_pos named], rfl⟩
      | already symbol known entry => exact ⟨symbol, known, entry⟩
    obtain ⟨known, there, evolves⟩ := later label symbol found
    cases again with
    | entry exports => exact ahead.catch_up_entry there (evolves.entry entry) exports
  | external imports =>
    cases imports with
    | new absent =>
      have found := get?_insert_self table ⟨label, none, .external, 0, 0⟩
      obtain ⟨known, there, evolves⟩ := later label _ found
      have external : known.usage = .external := by
        rcases evolves.usage with same | ⟨plain, _⟩
        · exact same
        · cases plain
      cases again with
      | external imports => exact ahead.catch_up_external there external imports

end Symbol.Table

namespace Pass

variable {p q : Pass} {assembler : Assembler}

theorem Remarks.context_of_quiet {added : List Diagnostic} (remarks : Remarks p q added)
    (quiet : q.Quiet) : q.context = p.context := by
  obtain ⟨comment, line⟩ := remarks.line
  have none : p.line.diagnostics ++ added = [] := by
    rw [Quiet, line] at quiet
    exact quiet
  rw [remarks.context, (List.append_eq_nil_iff.1 none).2, Context.count_nil]

theorem finishLine_context_of_quiet {rest : Bytes}
    (quiet : (p.finishLine assembler rest).Quiet) :
    (p.finishLine assembler rest).context = p.context := by
  obtain ⟨added, remarks, _⟩ := readTrailing_remarks p assembler rest
  unfold finishLine at quiet ⊢
  dsimp only at quiet ⊢
  split at quiet
  · rename_i halted
    rw [if_pos halted]
  · rename_i running
    rw [if_neg running]
    split at quiet
    · rename_i wrong
      rw [if_pos wrong]
      exact remarks.context_of_quiet quiet
    · rename_i right
      rw [if_neg right]
      exact remarks.context_of_quiet quiet

theorem readLabel_context_of_quiet (fresh : p.Fresh) {column : Option Token}
    (quiet : (p.readLabel assembler column).Quiet) :
    (p.readLabel assembler column).context = p.context := by
  rcases readLabel_cases p assembler column fresh.unnamed with read | ⟨_, key, _, read⟩
  · rw [read]
  · rw [read] at quiet
    exact absurd quiet (report_not_quiet p assembler key)

/-- ENTRY and EXTRN without diagnostics declare their operand, and do no more. -/
theorem applyDirective_publishes {directive : Directive}
    (declares : directive = .entry ∨ directive = .extrn) {operand : Operand}
    (quiet : (p.applyDirective assembler directive operand).Quiet) :
    p.symbols.Publishes operand.text (p.applyDirective assembler directive operand).symbols
        directive ∧
      (p.applyDirective assembler directive operand).context = p.context := by
  obtain ⟨_, remarks⟩ := ignoreLabel_remarks p assembler
  rcases declares with rfl | rfl
  · obtain ⟨_, next, exports, applied⟩ := applyEntry_exports assembler quiet
    rw [applyDirective, applied] at quiet
    rw [applyDirective, applied]
    exact ⟨.entry exports, remarks.context_of_quiet quiet⟩
  · obtain ⟨_, next, imports, applied⟩ := applyExternal_imports assembler quiet
    rw [applyDirective, applied] at quiet
    rw [applyDirective, applied]
    exact ⟨.external imports, remarks.context_of_quiet quiet⟩

/-- A declaration that is read without diagnostics declares its operand, and does no more. -/
theorem readLine_publishes (fresh : p.Fresh) {directive : Directive} {operand : Operand}
    (said : assembler.directive? p.line.source = some (directive, operand))
    (declares : directive = .entry ∨ directive = .extrn)
    (running : (p.readLine assembler).fatal = none) (quiet : (p.readLine assembler).Quiet) :
    p.symbols.Publishes operand.text (p.readLine assembler).symbols directive ∧
      (p.readLine assembler).context = p.context ∧
      (p.readLine assembler).line.contributes = false := by
  obtain ⟨_, rfl⟩ := Assembler.directive?_eq_some said
  let labelled := p.readLabel assembler (assembler.columns p.line.source).label
  let rest := (assembler.columns p.line.source).rest
  let operand := Operand.ofToken (Token.next rest).1
  let stated :=
    (labelled.readOperand assembler rest).2.2.setStatement (.directive directive operand)
  have applied : (p.asDirective assembler directive).1 =
      stated.applyDirective assembler directive operand := rfl
  have unaddressed : (p.asDirective assembler directive).1.line.addressed = false := by
    rcases declares with rfl | rfl <;> exact asDirective_unaddressed fresh (by decide)
  obtain ⟨valued, directed⟩ := asDirective_directive? p assembler directive
  obtain ⟨_, remarks, _⟩ := readOperand_remarks labelled assembler rest
  obtain ⟨_, _, _, symbols, _⟩ := readLabel_settles p assembler
    (assembler.columns p.line.source).label fresh.unnamed fresh.unstated
  have kept : stated.symbols = p.symbols := remarks.symbols.trans symbols
  rw [readLine_of_written said running] at quiet ⊢
  have silent := (finishLine_follows _ assembler _).quiet quiet
  have settles := finishLine_settles (p.asDirective assembler directive).1 assembler
    (p.asDirective assembler directive).2
  have stays := finishLine_stays (p.asDirective assembler directive).1 assembler
    (p.asDirective assembler directive).2 unaddressed
  rw [settles.symbols, finishLine_context_of_quiet quiet, Line.contributes, settles.addressed,
    unaddressed, directive?_of_statement stays.statement, directed]
  rw [applied] at silent ⊢
  have read : (labelled.readOperand assembler rest).2.2.Quiet :=
    (applyDirective_follows stated assembler directive operand).quiet silent
  obtain ⟨publishes, context⟩ := applyDirective_publishes declares silent
  rw [kept] at publishes
  refine ⟨publishes, ?_, ?_⟩
  · have unlabelled := (readOperand_follows labelled assembler rest).quiet read
    rw [context]
    exact (remarks.context_of_quiet read).trans (readLabel_context_of_quiet fresh unlabelled)
  · rcases declares with rfl | rfl <;> rfl

end Pass

/-! ### The first pass -/

namespace Reading

variable {assembler : Assembler} {first second : Reading} {label source : Bytes}

/-- The lines were read to the end, and nothing is said of any. -/
structure Silent (reading : Reading) : Prop where
  running : reading.fatal = none
  quiet : ∀ line ∈ reading.lines, line.diagnostics = []

theorem Silent.of_concat {sources : List Bytes}
    (silent : (ofLines assembler (sources ++ [source])).Silent) :
    (ofLines assembler sources).Silent ∧
      ((ofLines assembler sources).stepped assembler (source, sources.length + 1)).Quiet ∧
      ((ofLines assembler sources).stepped assembler (source, sources.length + 1)).fatal =
        none := by
  have running := running_of_append assembler silent.running
  obtain ⟨stays, quiet⟩ := silent
  rw [ofLines_concat, add_fatal running] at stays
  rw [ofLines_concat, add_lines running] at quiet
  exact ⟨⟨running, fun line member => quiet line (List.mem_cons_of_mem _ member)⟩,
    quiet _ List.mem_cons_self, stays⟩

theorem Silent.of_append {sources more : List Bytes}
    (silent : (ofLines assembler (sources ++ more)).Silent) :
    (ofLines assembler sources).Silent := by
  induction more using List.reverseRecOn with
  | nil =>
    rw [List.append_nil] at silent
    exact silent
  | append_singleton more source ih =>
    rw [← List.append_assoc] at silent
    exact ih silent.of_concat.1

/-- Two readings, the first with a declaration of the label that the second has not read yet. -/
structure Ahead (label : Bytes) (first second : Reading) : Prop where
  context : second.context.uncounted = first.context.uncounted
  symbols : first.symbols.Ahead label second.symbols
  lines : Line.contributions second.lines = Line.contributions first.lines

/-- A line that both read without diagnostics. -/
theorem Ahead.add (ahead : first.Ahead label second) (running : first.fatal = none)
    (open_ : second.fatal = none) {here there : Nat} (later : here ≠ 1) (after : there ≠ 1)
    (quiet : (first.stepped assembler (source, here)).Quiet)
    (silent : (second.stepped assembler (source, there)).Quiet)
    (free : ∀ symbol, (second.stepped assembler (source, there)).symbols.get? label =
      some symbol → symbol.usage ≠ .programName) :
    (add assembler first (source, here)).Ahead label (add assembler second (source, there)) := by
  -- The second reading, but with the number and the counts of the first, lies in between.
  let between : Reading := { first with symbols := second.symbols }
  let middle := (first.fresh (source, here)).on second.symbols
  have fresh : Pass.Ahead label (first.fresh (source, here)) middle := .intro _ ahead.symbols
  have alike : Pass.Alike (middle.readLine assembler)
      (second.stepped assembler (source, there)) := by
    have same : Pass.Alike (between.fresh (source, here)) (second.fresh (source, there)) := by
      apply fresh_alike
      · exact ahead.context
      · rfl
      · exact running
      · exact open_
    apply same.readLine assembler .same
    exact iff_of_false (fun opening => after opening.1) (fun opening => later opening.1)
  have read : Pass.Ahead label (first.stepped assembler (source, here))
      (middle.readLine assembler) := by
    apply fresh.readLine assembler quiet
    · have said : (second.stepped assembler (source, there)).line.diagnostics =
          (middle.readLine assembler).line.diagnostics := (congrArg Line.diagnostics alike.line :)
      exact said.symm.trans silent
    · rw [← alike.symbols]
      exact free
  have same : (second.stepped assembler (source, there)).line.bare =
      (first.stepped assembler (source, here)).line.bare := by rw [alike.line, read.line]
  refine ⟨?_, ?_, ?_⟩
  · rw [add_context running, add_context open_, alike.context, read.context]
  · rw [add_symbols running, add_symbols open_, alike.symbols]
    exact read.symbols
  · rw [add_lines running, add_lines open_, Line.contributions_cons, Line.contributions_cons,
      Line.contributes_of_bare same, same, ahead.lines]

section Declaration

variable {before between : List Bytes} {directive : Directive} {operand : Operand}
  (said : assembler.directive? (Line.trimmed source) = some (directive, operand))
  (declares : directive = .entry ∨ directive = .extrn)
include said declares

/-- The reading of a declaration, and the reading without it. -/
theorem ahead_of_declaration (silent : (ofLines assembler (before ++ [source])).Silent) :
    (ofLines assembler before).symbols.Publishes operand.text
        (ofLines assembler (before ++ [source])).symbols directive ∧
      (ofLines assembler (before ++ [source])).Ahead operand.text (ofLines assembler before) := by
  obtain ⟨⟨running, _⟩, quiet, stays⟩ := silent.of_concat
  obtain ⟨publishes, context, silent⟩ := Pass.readLine_publishes
    (fresh_isFresh (ofLines assembler before) (source, before.length + 1)) said declares stays quiet
  rw [ofLines_concat, add_symbols running]
  refine ⟨publishes, ?_, ?_, ?_⟩
  · rw [add_context running]
    exact congrArg Context.uncounted context.symm
  · rw [add_symbols running]
    exact publishes.ahead (ofLines_labelled assembler before)
  · rw [add_lines running, Line.contributions_cons, if_neg]
    rw [Bool.not_eq_true]
    exact silent

/-- A declaration is no first line. -/
theorem ne_nil_of_declaration (running : (ofLines assembler (before ++ [source])).fatal = none) :
    before ≠ [] := by
  rintro rfl
  obtain ⟨command, _⟩ := Assembler.directive?_eq_some said
  rw [ofLines_concat, add_fatal rfl] at running
  have start : assembler.isStart (Line.trimmed source) = true :=
    Pass.isStart_of_running (initial.fresh (source, 1)) rfl running
  rcases Assembler.command?_of_isStart start with begins | unknown
  · rw [begins] at command
    cases command
    rcases declares with entry | external
    · cases entry
    · cases external
  · rw [unknown] at command
    cases command

end Declaration

/-- The lines between the two places, read after the declaration and without it. -/
theorem Ahead.append {before between : List Bytes} (nonempty : before ≠ [])
    (ahead : (ofLines assembler (before ++ [source])).Ahead label (ofLines assembler before))
    (silent : (ofLines assembler (before ++ [source] ++ between)).Silent)
    (quiet : (ofLines assembler (before ++ between)).Silent)
    (free : ∀ symbol, (ofLines assembler (before ++ between)).symbols.get? label = some symbol →
      symbol.usage ≠ .programName) :
    (ofLines assembler (before ++ [source] ++ between)).Ahead label
      (ofLines assembler (before ++ between)) := by
  have opened : 0 < before.length := List.length_pos_iff.2 nonempty
  induction between using List.reverseRecOn with
  | nil =>
    rw [List.append_nil, List.append_nil]
    exact ahead
  | append_singleton between line ih =>
    rw [← List.append_assoc] at silent quiet free
    rw [← List.append_assoc, ← List.append_assoc]
    obtain ⟨earlier, stated, _⟩ := silent.of_concat
    obtain ⟨sooner, said, _⟩ := quiet.of_concat
    have unnamed : ∀ symbol, (ofLines assembler (before ++ between)).symbols.get? label =
        some symbol → symbol.usage ≠ .programName := by
      intro symbol found program
      obtain ⟨later, known, evolves⟩ := extends_append (before ++ between) [line] label symbol found
      rcases evolves.usage with same | ⟨plain, _⟩
      · exact free later known (same.trans program)
      · rw [program] at plain
        cases plain
    have before_ := ih earlier sooner unnamed
    rw [ofLines_concat, add_symbols sooner.running] at free
    rw [ofLines_concat, ofLines_concat]
    apply before_.add earlier.running sooner.running _ _ stated said free
    · simp only [List.length_append]
      omega
    · simp only [List.length_append]
      omega

/-- Two readings of the same program that differ in lines that contribute nothing. -/
structure Together (first second : Reading) : Prop where
  context : second.context.uncounted = first.context.uncounted
  symbols : second.symbols = first.symbols
  lines : Line.contributions second.lines = Line.contributions first.lines

theorem Together.add (together : first.Together second) (running : first.fatal = none)
    (open_ : second.fatal = none) (numbered : Bytes × Nat)
    (going : (add assembler first numbered).fatal = none) :
    (add assembler first numbered).Together (add assembler second numbered) ∧
      (add assembler second numbered).fatal = none := by
  have alike : Pass.Alike (first.stepped assembler numbered)
      (second.stepped assembler numbered) :=
    (fresh_alike together.context together.symbols running open_ numbered numbered).readLine
      assembler .same Iff.rfl
  refine ⟨⟨?_, ?_, ?_⟩, ?_⟩
  · rw [add_context running, add_context open_, alike.context]
  · rw [add_symbols running, add_symbols open_, alike.symbols]
  · rw [add_lines running, add_lines open_, Line.contributions_cons, Line.contributions_cons,
      Line.contributes_of_bare alike.line, alike.line, together.lines]
  · exact add_running running numbered open_ alike.fatal going

/-- A declaration that stands in two places is read to the same program. -/
theorem together_of_moved {before between after : List Bytes} {directive : Directive}
    {operand : Operand}
    (said : assembler.directive? (Line.trimmed source) = some (directive, operand))
    (declares : directive = .entry ∨ directive = .extrn)
    (silent : (ofLines assembler (before ++ [source] ++ between ++ after)).Silent)
    (quiet : (ofLines assembler (before ++ between ++ [source] ++ after)).Silent) :
    (ofLines assembler (before ++ [source] ++ between ++ after)).Together
      (ofLines assembler (before ++ between ++ [source] ++ after)) := by
  have earlier := silent.of_append
  have sooner := quiet.of_append
  obtain ⟨publishes, ahead⟩ := ahead_of_declaration said declares earlier.of_append
  obtain ⟨again, behind⟩ := ahead_of_declaration said declares sooner
  have nonempty := ne_nil_of_declaration said declares earlier.of_append.running
  have between_ := ahead.append nonempty earlier sooner.of_append fun _ found => again.free found
  have meets : (ofLines assembler (before ++ [source] ++ between)).Together
      (ofLines assembler (before ++ between ++ [source])) := by
    refine ⟨?_, ?_, ?_⟩
    · rw [← between_.context, behind.context]
    · exact between_.symbols.catch_up publishes (extends_append _ between) again
    · rw [← between_.lines, behind.lines]
  have length : (before ++ between ++ [source]).length =
      (before ++ [source] ++ between).length := by
    simp only [List.length_append]
    omega
  -- A fatal diagnostic of the second reading would be one of the first as well.
  let relates (first second : Reading) : Prop := first.Together second ∧ second.fatal = none
  have step : ∀ first second numbered, relates first second → first.fatal = none →
      (add assembler first numbered).fatal = none →
        relates (add assembler first numbered) (add assembler second numbered) := by
    intro first second numbered together running going
    exact together.1.add running together.2 numbered going
  have base : relates (ofLines assembler (before ++ [source] ++ between))
      (ofLines assembler (before ++ between ++ [source])) := ⟨meets, sooner.running⟩
  exact (relates_append assembler step length base silent.running).1

theorem Together.symm (together : first.Together second) : second.Together first :=
  ⟨together.context.symm, together.symbols.symm, together.lines.symm⟩

end Reading

theorem insertIdx_append_length {α : Type} (before after : List α) (item : α) :
    (before ++ after).insertIdx before.length item = before ++ [item] ++ after := by
  induction before with
  | nil => rfl
  | cons head before ih =>
    rw [List.cons_append, List.length_cons, List.insertIdx_succ_cons, ih]
    rfl

namespace Reading

variable {assembler : Assembler} {source : Bytes} {directive : Directive} {operand : Operand}
  (said : assembler.directive? (Line.trimmed source) = some (directive, operand))
  (declares : directive = .entry ∨ directive = .extrn)
include said declares

/-- A declaration put into the other lines at two places, the first before the second. -/
theorem together_of_le {rest : List Bytes} {i j : Nat} (order : i ≤ j) (inside : j ≤ rest.length)
    (silent : (ofLines assembler (rest.insertIdx i source)).Silent)
    (quiet : (ofLines assembler (rest.insertIdx j source)).Silent) :
    (ofLines assembler (rest.insertIdx i source)).Together
      (ofLines assembler (rest.insertIdx j source)) := by
  let before := rest.take i
  let between := (rest.drop i).take (j - i)
  let after := rest.drop j
  have front : before ++ between = rest.take j := by
    rw [← List.take_add, Nat.add_sub_cancel' order]
  have whole : rest = before ++ between ++ after := by
    rw [front, List.take_append_drop]
  have here : rest.insertIdx i source = before ++ [source] ++ between ++ after := by
    have length : before.length = i := List.length_take_of_le (Nat.le_trans order inside)
    rw [List.append_assoc, ← insertIdx_append_length, ← List.append_assoc, ← whole, length]
  have there : rest.insertIdx j source = before ++ between ++ [source] ++ after := by
    have length : (before ++ between).length = j := by
      rw [front]
      exact List.length_take_of_le inside
    rw [← insertIdx_append_length, ← whole, length]
  rw [here] at silent ⊢
  rw [there] at quiet ⊢
  exact together_of_moved said declares silent quiet

theorem together_of_insertIdx {rest : List Bytes} {i j : Nat} (here : i ≤ rest.length)
    (there : j ≤ rest.length) (silent : (ofLines assembler (rest.insertIdx i source)).Silent)
    (quiet : (ofLines assembler (rest.insertIdx j source)).Silent) :
    (ofLines assembler (rest.insertIdx i source)).Together
      (ofLines assembler (rest.insertIdx j source)) := by
  by_cases order : i ≤ j
  · exact together_of_le said declares order there silent quiet
  · exact (together_of_le said declares (by omega) here quiet silent).symm

end Reading

/-! ### Sources -/

namespace Assembler

variable {assembler : Assembler} {text : Bytes} {date : Date} {file : ObjectFile}

/-- A source that assembles with nothing said of any line is its lines read in silence, emitted. -/
theorem silent_of_assembled (success : (assembler.assemble text date).outcome = .ok file)
    (quiet : ∀ line ∈ (assembler.assemble text date).program.lines, line.diagnostics = []) :
    (Reading.ofLines assembler (Lines.read text).lines).Silent ∧ ∃ emitted,
      assembler.emit (Reading.ofLines assembler (Lines.read text).lines).program date =
        .ok emitted ∧ emitted.file = file ∧ emitted.program.context.errors = 0 := by
  obtain ⟨_, emitted, emission, program, same⟩ := assemble_ok success
  rw [program] at quiet
  have emits := assembler.emit_exported emission
  obtain ⟨running, closed⟩ := assembler.parse_running text emits.running
  have errors : emitted.program.context.errors = 0 := by
    rw [(emit_tallied emission (parse_tallied assembler text)).errors, List.countP_eq_zero]
    intro diagnostic member
    obtain ⟨line, inside, said⟩ := List.mem_flatMap.1 member
    rw [quiet line inside] at said
    cases said
  have unsaid : ∀ line ∈ (assembler.parse text).program.lines, line.diagnostics = [] := by
    intro line member
    have after : (assembler.parse text).program.scope.lineAfter assembler line ∈
        emitted.program.lines := by
      rw [emits.lines, (emits.clean errors).2.1]
      exact List.mem_map_of_mem member
    have none := ((assembler.parse text).program.scope.lineAfter_keeps assembler line).diagnostics
    rwa [quiet _ after, List.prefix_nil] at none
  cases closed with
  | ended read =>
    rw [read] at emission unsaid
    refine ⟨⟨running, fun line member => unsaid line ?_⟩, emitted, emission, same, errors⟩
    exact List.mem_reverse.2 member
  | unended last earlier lines read =>
    have none := unsaid (last.unended assembler) (by rw [read]; simp)
    simp [Line.unended] at none

/-- A source with an ENTRY or EXTRN line, and the source with that line in another place: if both
assemble with nothing said of any line, they assemble to the same object file. -/
theorem declarations_anywhere (assembler : Assembler) {text moved : Bytes} {date : Date}
    {file other : ObjectFile} {i j : Nat} {line : Bytes} {directive : Directive} {operand : Operand}
    (here : (Lines.read text).lines[i]? = some line)
    (said : assembler.directive? (Line.trimmed line) = some (directive, operand))
    (declares : directive = .entry ∨ directive = .extrn)
    (inside : j < (Lines.read text).lines.length)
    (lines : (Lines.read moved).lines = ((Lines.read text).lines.eraseIdx i).insertIdx j line)
    (success : (assembler.assemble text date).outcome = .ok file)
    (quiet : ∀ line ∈ (assembler.assemble text date).program.lines, line.diagnostics = [])
    (again : (assembler.assemble moved date).outcome = .ok other)
    (silent : ∀ line ∈ (assembler.assemble moved date).program.lines, line.diagnostics = []) :
    other = file := by
  obtain ⟨read, emitted, emission, rfl, clean⟩ := silent_of_assembled success quiet
  obtain ⟨reread, another, reemission, rfl, neat⟩ := silent_of_assembled again silent
  obtain ⟨inText, rfl⟩ := List.getElem?_eq_some_iff.1 here
  have length := List.length_eraseIdx_of_lt inText
  have whole := List.insertIdx_eraseIdx_getElem inText
  rw [lines] at reread reemission
  rw [← whole] at read
  have together := Reading.together_of_insertIdx said declares (by omega) (by omega) read reread
  rw [whole] at together
  apply file_of_contributions emission reemission clean neat together.context together.symbols
  rw [Reading.program, Reading.program, Line.contributions_reverse, Line.contributions_reverse,
    together.lines]

end Assembler

/-- An entry declared before its label is defined, used in an equate and jumped to. -/
def earlySource : Bytes :=
  ascii "PROG START 0\n ENTRY HERE\nHERE DAT I=5\nNEAR EQU HERE+1\n JUMP EQUAL HERE\n END PROG"

/-- The source with the declaration after all of this. -/
def lateSource : Bytes :=
  ascii "PROG START 0\nHERE DAT I=5\nNEAR EQU HERE+1\n JUMP EQUAL HERE\n ENTRY HERE\n END PROG"

theorem Assembler.declarations_anywhere_lateSource : ∃ file,
    (Assembler.assemble {} earlySource Date.first).outcome = .ok file ∧
      (Assembler.assemble {} lateSource Date.first).outcome = .ok file ∧
      (Lines.read lateSource).lines =
        ((Lines.read earlySource).lines.eraseIdx 1).insertIdx 4 (ascii " ENTRY HERE") ∧
      file.linking = [⟨ascii "HERE", 0, ascii "PROG"⟩] := by
  have here : (Lines.read earlySource).lines[1]? = some (ascii " ENTRY HERE") := by
    decide +kernel
  have lines : (Lines.read lateSource).lines =
      ((Lines.read earlySource).lines.eraseIdx 1).insertIdx 4 (ascii " ENTRY HERE") := by
    decide +kernel
  have inside : 4 < (Lines.read earlySource).lines.length := by decide +kernel
  have said : Assembler.directive? {} (Line.trimmed (ascii " ENTRY HERE")) =
      some (.entry, ⟨ascii "HERE", .symbol, 0⟩) := by decide +kernel
  have quiet : ∀ line ∈ (Assembler.assemble {} earlySource Date.first).program.lines,
      line.diagnostics = [] := by decide +kernel
  have silent : ∀ line ∈ (Assembler.assemble {} lateSource Date.first).program.lines,
      line.diagnostics = [] := by decide +kernel
  have linking : (Assembler.assemble {} earlySource Date.first).outcome.toOption.map (·.linking) =
      some [⟨ascii "HERE", 0, ascii "PROG"⟩] := by decide +kernel
  have assembles : (Assembler.assemble {} lateSource Date.first).outcome.isOk = true := by
    decide +kernel
  cases success : (Assembler.assemble {} earlySource Date.first).outcome with
  | error fault =>
    rw [success] at linking
    cases linking
  | ok file =>
    cases again : (Assembler.assemble {} lateSource Date.first).outcome with
    | error fault =>
      rw [again] at assembles
      cases assembles
    | ok other =>
      have same := Assembler.declarations_anywhere {} here said (Or.inl rfl) inside lines success
        quiet again silent
      rw [success] at linking
      exact ⟨file, rfl, congrArg Except.ok same, lines, Option.some.inj linking⟩

end WordAssembler

import WordAssembler.Proofs.Beginning

/-!
The counts of a program. Programs are read, emitted, listed and have lines given up in any order,
and each of these keeps the counts of errors and warnings equal to the diagnostics on the lines. An
emission that is refused changes nothing, and one that is not refused happens once.
-/

set_option autoImplicit false

namespace WordAssembler

/-- The counts of a state are those of the diagnostics on some lines. -/
structure Context.Tallies (context : Context) (lines : List Line) : Prop where
  errors : context.errors =
    (lines.flatMap (·.diagnostics)).countP (·.key.severity.isError)
  warnings : context.warnings =
    (lines.flatMap (·.diagnostics)).countP (·.key.severity = .warning)

namespace Context.Tallies

variable {context : Context} {lines others : List Line}

/-- The order of the lines does not count. -/
theorem perm (tallies : context.Tallies lines) (same : lines.Perm others) :
    context.Tallies others := by
  have diagnostics := same.flatMap_right fun line : Line => line.diagnostics
  refine ⟨?_, ?_⟩
  · rw [tallies.errors, diagnostics.countP_eq]
  · rw [tallies.warnings, diagnostics.countP_eq]

/-- Diagnostics that are added to lines one by one add up. -/
theorem countP_remarked (test : Diagnostic → Bool) {change : Line → Line}
    {added : Line → List Diagnostic}
    (remarked : ∀ line, (change line).diagnostics = line.diagnostics ++ added line)
    (lines : List Line) :
    ((lines.map change).flatMap (·.diagnostics)).countP test =
      (lines.flatMap (·.diagnostics)).countP test + (lines.flatMap added).countP test := by
  induction lines with
  | nil => rfl
  | cons line later ih =>
    simp only [List.map_cons, List.flatMap_cons, List.countP_append, remarked, ih]
    omega

/-- Every line gets diagnostics, which are counted. -/
theorem remark (tallies : context.Tallies lines) {change : Line → Line}
    {added : Line → List Diagnostic}
    (remarked : ∀ line, (change line).diagnostics = line.diagnostics ++ added line) :
    (context.count (lines.flatMap added)).Tallies (lines.map change) := by
  refine ⟨?_, ?_⟩
  · rw [countP_remarked _ remarked, ← tallies.errors]
    rfl
  · rw [countP_remarked _ remarked, ← tallies.warnings]
    rfl

/-- The first of the lines gets a diagnostic, which is counted. -/
theorem remark_head {line : Line} (tallies : context.Tallies (line :: lines))
    (diagnostic : Diagnostic) :
    (context.count [diagnostic]).Tallies
      ({ line with diagnostics := line.diagnostics ++ [diagnostic] } :: lines) := by
  have errors := tallies.errors
  have warnings := tallies.warnings
  simp only [List.flatMap_cons, List.countP_append] at errors warnings
  refine ⟨?_, ?_⟩
  · simp only [Context.count, List.flatMap_cons, List.countP_append, errors]
    omega
  · simp only [Context.count, List.flatMap_cons, List.countP_append, warnings]
    omega

end Context.Tallies

/-! ### The first pass -/

namespace Reading

/-- The diagnostics of a line are counted when it is read. -/
theorem add_tallies (assembler : Assembler) (reading : Reading) (numbered : Bytes × Nat)
    (tallies : reading.context.Tallies reading.lines) :
    (add assembler reading numbered).context.Tallies (add assembler reading numbered).lines := by
  cases halted : reading.fatal.isSome with
  | true =>
    rw [add_of_halted assembler halted]
    exact tallies
  | false =>
    have running : reading.fatal = none := by simpa using halted
    obtain ⟨added, reports⟩ := (reading.fresh numbered).readLine_follows assembler
    have diagnostics : (reading.stepped assembler numbered).line.diagnostics = added :=
      reports.diagnostics
    rw [add_context running, add_lines running]
    refine ⟨?_, ?_⟩
    · rw [List.flatMap_cons, List.countP_append, diagnostics, ← tallies.errors, Nat.add_comm]
      exact reports.errors
    · rw [List.flatMap_cons, List.countP_append, diagnostics, ← tallies.warnings, Nat.add_comm]
      exact reports.warnings

theorem ofLines_tallies (assembler : Assembler) (sources : List Bytes) :
    (ofLines assembler sources).context.Tallies (ofLines assembler sources).lines :=
  ofLines_induction (fun reading => reading.context.Tallies reading.lines) ⟨rfl, rfl⟩
    (add_tallies assembler) sources

theorem reportLast_tallies (assembler : Assembler) {reading : Reading} (key : Key)
    (tallies : reading.context.Tallies reading.lines) :
    (reading.reportLast assembler key).context.Tallies
      (reading.reportLast assembler key).lines := by
  unfold reportLast
  split
  · rename_i last earlier lines
    rw [lines] at tallies
    simp only [afterPass, Pass.report_context, Pass.report_line]
    exact tallies.remark_head _
  · rename_i empty
    have unread : reading.context.Tallies [Line.unread 1 [] 0] := by
      rw [empty] at tallies
      exact ⟨tallies.errors, tallies.warnings⟩
    simp only [afterPass, Pass.report_context, Pass.report_line]
    exact unread.remark_head _

theorem finish_tallies (assembler : Assembler) {reading : Reading}
    (tallies : reading.context.Tallies reading.lines) :
    (reading.finish assembler).context.Tallies (reading.finish assembler).lines := by
  unfold finish
  split
  · exact tallies
  · split
    · exact reportLast_tallies assembler _ tallies
    · split
      · exact tallies
      · exact reportLast_tallies assembler _ tallies

end Reading

/-- The counts of a program are those of the diagnostics on its lines. -/
def Program.Tallied (program : Program) : Prop := program.context.Tallies program.lines

theorem Reading.program_tallied {reading : Reading}
    (tallies : reading.context.Tallies reading.lines) : reading.program.Tallied :=
  tallies.perm (List.reverse_perm reading.lines).symm

theorem Assembler.parse_tallied (assembler : Assembler) (text : Bytes) :
    (assembler.parse text).program.Tallied := by
  have read := Reading.ofLines_tallies assembler (Lines.read text).lines
  unfold parse
  dsimp only
  split
  · exact Reading.program_tallied read
  · exact Reading.program_tallied (Reading.finish_tallies assembler read)

/-! ### The second pass -/

theorem Scope.lineAfter_diagnostics (scope : Scope) (assembler : Assembler) (line : Line) :
    (scope.lineAfter assembler line).diagnostics =
      line.diagnostics ++ scope.remarks assembler line := by
  unfold lineAfter remarks
  split
  · cases scope.resolution line <;> rfl
  · rw [List.append_nil]

namespace Emission

variable (assembler : Assembler) {emission : Emission}
  (tallies : emission.context.Tallies emission.lines)
include tallies

theorem exportEntry_tallies (symbol : Symbol) :
    (emission.exportEntry assembler symbol).context.Tallies
      (emission.exportEntry assembler symbol).lines := by
  unfold exportEntry
  split
  · split
    · exact tallies
    · obtain ⟨log, reported⟩ := reportEntry_eq assembler emission symbol.label
      rw [reported]
      exact tallies.remark fun _ => rfl
  · exact tallies

theorem exportEntries_tallies :
    (emission.exportEntries assembler).context.Tallies
      (emission.exportEntries assembler).lines := by
  unfold exportEntries
  generalize emission.symbols.symbols = symbols
  induction symbols generalizing emission with
  | nil => exact tallies
  | cons symbol later ih => exact ih (exportEntry_tallies assembler tallies symbol)

theorem addLines_tallies :
    (emission.addLines assembler).context.Tallies (emission.addLines assembler).lines := by
  have adds := addLines_adds assembler emission
  have lines := adds.lines
  rw [List.reverse_nil, List.nil_append] at lines
  refine Context.Tallies.perm ?_ (List.reverse_perm (emission.addLines assembler).lines)
  rw [adds.context, lines]
  exact tallies.remark (Scope.lineAfter_diagnostics _ assembler)

end Emission

theorem Assembler.emit_tallied {assembler : Assembler} {program : Program} {date : Date}
    {emitted : Emitted} (success : assembler.emit program date = .ok emitted)
    (tallied : program.Tallied) : emitted.program.Tallied := by
  unfold emit at success
  split at success
  · cases success
  · split at success
    · cases success
    · cases success
      have start : (Emission.start program).context.Tallies (Emission.start program).lines :=
        ⟨tallied.errors, tallied.warnings⟩
      have lines := Emission.addLines_tallies assembler
        (Emission.exportEntries_tallies assembler start)
      exact lines.perm (List.reverse_perm _).symm

/-- A program that is emitted was not emitted before, and is so now. -/
theorem Assembler.emit_once {assembler : Assembler} {program : Program} {date : Date}
    {emitted : Emitted} (success : assembler.emit program date = .ok emitted) :
    program.context.emitted = false ∧ emitted.program.context.emitted = true := by
  obtain ⟨exported, emits⟩ := emit_emits success
  obtain ⟨reported, context, _⟩ := emits.context
  refine ⟨?_, by rw [context, Context.count]⟩
  unfold emit at success
  split at success
  · cases success
  · split at success
    · cases success
    · rename_i fresh
      simpa using fresh

/-- A line that is given up keeps its diagnostics. -/
theorem Program.Tallied.invalidateLine {program : Program} (tallied : program.Tallied)
    (position : Nat) : (program.invalidateLine position).Tallied := by
  have diagnostics : (program.lines.modify position Line.invalidate).map (·.diagnostics) =
      program.lines.map (·.diagnostics) := by
    apply List.ext_getElem?
    intro place
    rw [List.getElem?_map, List.getElem?_map, List.getElem?_modify]
    cases program.lines[place]? with
    | none => rfl
    | some line =>
      simp only [Option.map_eq_map, Option.map_some]
      split <;> rfl
  have flat : (program.invalidateLine position).lines.flatMap (·.diagnostics) =
      program.lines.flatMap (·.diagnostics) := by
    rw [List.flatMap_def, List.flatMap_def]
    exact congrArg List.flatten diagnostics
  refine ⟨?_, ?_⟩
  · rw [flat]
    exact tallied.errors
  · rw [flat]
    exact tallied.warnings

/-! ### Sessions -/

/-- What can be done with programs, each known by its number in the order in which they were read:
read one more, give up a line of one, emit one, or list one. -/
inductive Operation where
  | parse (text : Bytes)
  | invalidate (number position : Nat)
  | emit (number : Nat) (date : Date)
  | report (number : Nat) (width : Int)
deriving DecidableEq, Repr

/-- What an operation answers. There may be no program of its number. -/
inductive Answer where
  | parsed (fault : Option ParseFault)
  | invalidated
  | emitted (outcome : Except EmitFault ObjectFile)
  | listed (listing : Listing)
  | missing
deriving DecidableEq, Repr

/-- The programs read so far, and what was done with them, latest first. -/
structure Session where
  programs : List Program
  history : List (Operation × Answer)

namespace Session

def initial : Session := ⟨[], []⟩

def perform (assembler : Assembler) (programs : List Program) :
    Operation → List Program × Answer
  | .parse text =>
    (programs ++ [(assembler.parse text).program], .parsed (assembler.parse text).fault)
  | .invalidate number position =>
    (programs.modify number (·.invalidateLine position), .invalidated)
  | .emit number date =>
    match programs[number]? with
    | none => (programs, .missing)
    | some program =>
      let (after, outcome) := assembler.emitInPlace program date
      (programs.set number after, .emitted outcome)
  | .report number width =>
    match programs[number]? with
    | none => (programs, .missing)
    | some program => (programs, .listed (program.listing width))

def step (session : Session) (done : Assembler × Operation) : Session :=
  let (programs, answer) := perform done.1 session.programs done.2
  ⟨programs, (done.2, answer) :: session.history⟩

/-- The session of some operations, each by an assembler of its own. -/
def run (operations : List (Assembler × Operation)) : Session := operations.foldl step initial

def succeeds (number : Nat) : Operation × Answer → Bool
  | (.emit other _, .emitted (.ok _)) => other == number
  | _ => false

/-- How often the program of a number was emitted. -/
def emissions (session : Session) (number : Nat) : Nat :=
  session.history.countP (succeeds number)

def isEmitted (programs : List Program) (number : Nat) : Bool :=
  programs[number]?.any (·.context.emitted)

/-- A session keeps the counts of its programs, and knows which were emitted. -/
structure Sound (session : Session) : Prop where
  tallied : ∀ program ∈ session.programs, program.Tallied
  once : ∀ number, session.emissions number ≤ (isEmitted session.programs number).toNat

/-- A refused emission leaves the programs as they were. -/
theorem perform_refused {assembler : Assembler} {programs : List Program} {number : Nat}
    {date : Date} {fault : EmitFault}
    (refused : (perform assembler programs (.emit number date)).2 = .emitted (.error fault)) :
    (perform assembler programs (.emit number date)).1 = programs := by
  unfold perform at refused ⊢
  dsimp only at refused ⊢
  split at refused
  · cases refused
  · rename_i program found
    unfold Assembler.emitInPlace at refused ⊢
    split at refused
    · obtain ⟨inside, rfl⟩ := List.getElem?_eq_some_iff.1 found
      exact List.set_getElem_self inside
    · cases refused

/-- An operation that emits nothing and leaves each program counted and emitted as it was. -/
theorem Sound.quiet {session : Session} (sound : session.Sound) {programs : List Program}
    {done : Operation × Answer} (tallied : ∀ program ∈ programs, program.Tallied)
    (kept : ∀ number, isEmitted session.programs number = true → isEmitted programs number = true)
    (silent : ∀ number, succeeds number done = false) :
    Sound ⟨programs, done :: session.history⟩ := by
  refine ⟨tallied, ?_⟩
  intro number
  have before := sound.once number
  have same : emissions ⟨programs, done :: session.history⟩ number = session.emissions number := by
    unfold emissions
    rw [List.countP_cons, silent number]
    rfl
  rw [same]
  cases emitted : isEmitted session.programs number with
  | true =>
    rw [emitted] at before
    rwa [kept number emitted]
  | false =>
    rw [emitted] at before
    exact Nat.le_trans before (Nat.zero_le _)

theorem invalidated_of_getElem? {programs : List Program} {number position place : Nat}
    {program : Program}
    (found : (programs.modify number (·.invalidateLine position))[place]? = some program) :
    ∃ old, programs[place]? = some old ∧
      program = if number = place then old.invalidateLine position else old := by
  rw [List.getElem?_modify] at found
  obtain ⟨old, known, same⟩ := Option.map_eq_some_iff.1 found
  refine ⟨old, known, ?_⟩
  rw [← same]

theorem mem_set_tallied {programs : List Program} {number : Nat} {after : Program}
    (tallied : ∀ program ∈ programs, program.Tallied) (counted : after.Tallied) :
    ∀ program ∈ programs.set number after, program.Tallied := by
  intro program member
  rcases List.mem_or_eq_of_mem_set member with old | rfl
  · exact tallied program old
  · exact counted

/-- An emission that succeeds is the first of its program. -/
theorem Sound.emitted {session : Session} (sound : session.Sound) {assembler : Assembler}
    {number : Nat} {date : Date} {program : Program} {emitted : Emitted}
    (found : session.programs[number]? = some program)
    (success : assembler.emit program date = .ok emitted) :
    Sound ⟨session.programs.set number emitted.program,
      (.emit number date, .emitted (.ok emitted.file)) :: session.history⟩ := by
  obtain ⟨fresh, done⟩ := Assembler.emit_once success
  obtain ⟨inside, _⟩ := List.getElem?_eq_some_iff.1 found
  have counted := Assembler.emit_tallied success
    (sound.tallied program (List.mem_of_getElem? found))
  refine ⟨mem_set_tallied sound.tallied counted, ?_⟩
  intro other
  have before := sound.once other
  unfold emissions isEmitted at before ⊢
  rw [List.countP_cons]
  by_cases same : number = other
  · subst same
    rw [found] at before
    simp only [Option.any_some, fresh, Bool.toNat_false, Nat.le_zero] at before
    simp [before, succeeds, inside, done]
  · rw [List.getElem?_set_ne same]
    simpa [succeeds, same] using before

/-- An operation keeps a session sound. -/
theorem step_sound {session : Session} (sound : session.Sound) (done : Assembler × Operation) :
    (session.step done).Sound := by
  obtain ⟨assembler, operation⟩ := done
  cases operation with
  | parse text =>
    refine sound.quiet ?_ ?_ fun _ => rfl
    · intro program member
      rcases List.mem_append.1 member with old | new
      · exact sound.tallied program old
      · rw [List.mem_singleton.1 new]
        exact assembler.parse_tallied text
    · intro number emitted
      unfold isEmitted at emitted ⊢
      cases found : session.programs[number]? with
      | none =>
        rw [found] at emitted
        cases emitted
      | some program =>
        obtain ⟨inside, _⟩ := List.getElem?_eq_some_iff.1 found
        rw [found] at emitted
        rwa [List.getElem?_append_left inside, found]
  | invalidate number position =>
    refine sound.quiet ?_ ?_ fun _ => rfl
    · intro program member
      obtain ⟨place, found⟩ := List.mem_iff_getElem?.1 member
      obtain ⟨old, known, rfl⟩ := invalidated_of_getElem? found
      have counted := sound.tallied old (List.mem_of_getElem? known)
      split
      · exact counted.invalidateLine position
      · exact counted
    · intro other emitted
      unfold isEmitted at emitted ⊢
      rw [List.getElem?_modify]
      cases found : session.programs[other]? with
      | none =>
        rw [found] at emitted
        cases emitted
      | some program =>
        rw [found] at emitted
        simp only [Option.map_eq_map, Option.map_some, Option.any_some]
        split
        · exact emitted
        · exact emitted
  | emit number date =>
    unfold step perform
    dsimp only
    cases found : session.programs[number]? with
    | none => exact sound.quiet sound.tallied (fun _ => id) fun _ => rfl
    | some program =>
      dsimp only [Assembler.emitInPlace]
      cases success : assembler.emit program date with
      | ok emitted => exact sound.emitted found success
      | error fault =>
        obtain ⟨inside, rfl⟩ := List.getElem?_eq_some_iff.1 found
        dsimp only
        rw [List.set_getElem_self inside]
        exact sound.quiet sound.tallied (fun _ => id) fun _ => rfl
  | report number width =>
    unfold step perform
    dsimp only
    split
    · exact sound.quiet sound.tallied (fun _ => id) fun _ => rfl
    · exact sound.quiet sound.tallied (fun _ => id) fun _ => rfl

theorem run_sound (operations : List (Assembler × Operation)) : (run operations).Sound := by
  have folded : ∀ session : Session, session.Sound → (operations.foldl step session).Sound := by
    induction operations with
    | nil => exact fun _ sound => sound
    | cons done later ih => exact fun _ sound => ih _ (step_sound sound done)
  exact folded initial ⟨nofun, fun _ => Nat.zero_le _⟩

/-- Whatever was done with some programs, by assemblers with any tables and messages, the counts of
each program are those of the diagnostics on its lines. An emission that is refused changes no
program, and no program was emitted more than once. -/
theorem tallies_of_run (operations : List (Assembler × Operation)) :
    (∀ program ∈ (run operations).programs, program.Tallied) ∧
      (∀ assembler number date fault,
        (perform assembler (run operations).programs (.emit number date)).2 =
            .emitted (.error fault) →
          (perform assembler (run operations).programs (.emit number date)).1 =
            (run operations).programs) ∧
      ∀ number, (run operations).emissions number ≤ 1 := by
  have sound := run_sound operations
  refine ⟨sound.tallied, fun _ _ _ _ refused => perform_refused refused, ?_⟩
  intro number
  exact Nat.le_trans (sound.once number) (Bool.toNat_le _)

end Session

/-- A source with an error on one line, a warning on another, and no END. -/
def faultySource : Bytes := ascii "PROG START 0\n ENTRY Lost\n CNTL CLRD,5\n ADC"

/-- The source is read, its third line is given up, and it is emitted twice by an assembler without
messages. -/
def faultySession : List (Assembler × Operation) :=
  [({}, .parse faultySource), ({}, .invalidate 0 2),
    ({ catalog := .empty }, .emit 0 Date.first), ({ catalog := .empty }, .emit 0 Date.first)]

theorem Session.tallies_of_faultySession :
    (Session.run faultySession).programs.map (fun program =>
        (program.context.errors, program.context.warnings)) = [(2, 2)] ∧
      (∀ program ∈ (Session.run faultySession).programs, program.Tallied) ∧
      (perform {} (Session.run faultySession).programs (.emit 0 Date.first)).1 =
        (Session.run faultySession).programs ∧
      0 < (Session.run faultySession).emissions 0 ∧
      (Session.run faultySession).emissions 0 ≤ 1 := by
  obtain ⟨tallied, refused, once⟩ := Session.tallies_of_run faultySession
  refine ⟨by decide +kernel, tallied, refused {} 0 Date.first .emitted ?_, ?_, once 0⟩
  · decide +kernel
  · decide +kernel

end WordAssembler

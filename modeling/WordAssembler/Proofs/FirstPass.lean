import WordAssembler.Proofs.Operand
import WordAssembler.Proofs.Pass
import WordAssembler.Proofs.Table

/-!
What reading one source line does to the layout of the program: it leaves the location counter
alone, takes the word at it, moves it forward, or begins the program. Every later fact about the
first pass comes from these four cases.
-/

set_option autoImplicit false

namespace WordAssembler

/-- The address that a RESET line moved the location counter to, if it did. -/
def Line.resetTarget? (line : Line) : Option Int :=
  match line.directive? with
  | some (.reset, operand) => if line.has .serious then none else some operand.value
  | _ => none

/-- The program has the same name and load address, and has started if it had. -/
structure Context.SameProgram (before after : Context) : Prop where
  start : after.start = before.start
  program : after.program = before.program
  started : after.started = before.started

theorem Context.SameProgram.refl (context : Context) : context.SameProgram context :=
  ⟨rfl, rfl, rfl⟩

theorem Context.SameProgram.trans {first second third : Context}
    (left : first.SameProgram second) (right : second.SameProgram third) :
    first.SameProgram third :=
  ⟨right.start.trans left.start, right.program.trans left.program,
    right.started.trans left.started⟩

theorem Context.count_sameProgram (context : Context) (added : List Diagnostic) :
    context.SameProgram (context.count added) :=
  ⟨rfl, rfl, rfl⟩

namespace Line

theorem has_mono {first second : Line} {severity : Severity}
    (more : first.diagnostics <+: second.diagnostics) (has : first.has severity = true) :
    second.has severity = true := by
  simp only [Line.has, List.any_eq_true] at has ⊢
  obtain ⟨diagnostic, member, same⟩ := has
  exact ⟨diagnostic, more.subset member, same⟩

theorem resetTarget?_of_directive {line : Line} {directive : Directive} {operand : Operand}
    (statement : line.statement = some (.directive directive operand))
    (other : directive ≠ .reset) : line.resetTarget? = none := by
  unfold resetTarget? directive?
  rw [statement]
  split
  · rename_i _ found
    cases found
    exact absurd rfl other
  · rfl

theorem resetTarget?_of_serious {line : Line} (serious : line.has .serious = true) :
    line.resetTarget? = none := by
  unfold resetTarget?
  split
  · rw [if_pos serious]
  · rfl

/-- A line that keeps its statement and its diagnostics has no target if it had none. -/
theorem resetTarget?_none_mono {first second : Line}
    (statement : second.statement = first.statement)
    (more : first.diagnostics <+: second.diagnostics) (absent : first.resetTarget? = none) :
    second.resetTarget? = none := by
  have directive : second.directive? = first.directive? := by
    unfold directive?
    rw [statement]
  unfold resetTarget? at absent ⊢
  rw [directive]
  split at absent
  · split at absent
    · rename_i serious
      simp only [has_mono more serious, ↓reduceIte]
    · cases absent
  · rfl

end Line

namespace Expression.Evaluator

/-- An equate has no negative value at an address. -/
theorem equate_nonneg {ev : Evaluator} {expression : Bytes} {location limit : Int} {found : Equate}
    (equated : ev.equate expression location limit = .ok found) (lower : 0 ≤ location) :
    0 ≤ found.value := by
  unfold equate at equated
  split at equated
  · cases equated
    exact lower
  · split at equated
    · cases equated
    · split at equated
      · cases equated
      · dsimp only at equated
        split at equated
        · rename_i inside
          cases equated
          simp only [isAddress, Bool.and_eq_true, decide_eq_true_eq] at inside
          exact inside.1
        · cases equated

end Expression.Evaluator

namespace Pass

/-! ### Work after the word is given -/

/-- One pass is another after work that leaves the layout and the symbols alone. -/
structure Settles (p q : Pass) : Prop where
  program : p.context.SameProgram q.context
  errors : p.context.errors ≤ q.context.errors
  counter : q.context.location = p.context.location
  symbols : q.symbols = p.symbols
  addressed : q.line.addressed = p.line.addressed
  place : q.line.location = p.line.location
  label : q.line.label = p.line.label
  diagnostics : p.line.diagnostics <+: q.line.diagnostics
  target : p.line.resetTarget? = none → q.line.resetTarget? = none

theorem Settles.refl (p : Pass) : Settles p p :=
  ⟨.refl _, Nat.le_refl _, rfl, rfl, rfl, rfl, rfl, List.prefix_refl _, id⟩

theorem Settles.trans {p q r : Pass} (left : Settles p q) (right : Settles q r) : Settles p r :=
  ⟨left.program.trans right.program, Nat.le_trans left.errors right.errors,
    right.counter.trans left.counter, right.symbols.trans left.symbols,
    right.addressed.trans left.addressed, right.place.trans left.place,
    right.label.trans left.label, left.diagnostics.trans right.diagnostics,
    right.target ∘ left.target⟩

theorem Remarks.settles {p q : Pass} {added : List Diagnostic} (remarks : Remarks p q added) :
    Settles p q := by
  obtain ⟨comment, line⟩ := remarks.line
  have more : p.line.diagnostics <+: q.line.diagnostics := by
    rw [line]
    exact List.prefix_append _ _
  refine ⟨?_, remarks.follows.errors_le, ?_, remarks.symbols, ?_, ?_, ?_, more, ?_⟩
  · rw [remarks.context]
    exact p.context.count_sameProgram added
  · rw [remarks.context, Context.count]
  · rw [line]
  · rw [line]
  · rw [line]
  · exact Line.resetTarget?_none_mono (by rw [line]) more

variable (p : Pass) (assembler : Assembler)

theorem invalidate_settles : Settles p p.invalidate :=
  ⟨.refl _, Nat.le_refl _, rfl, rfl, rfl, rfl, rfl, List.prefix_refl _, fun _ => rfl⟩

theorem setWord_settles (word : Word) : Settles p (p.setWord word) :=
  ⟨.refl _, Nat.le_refl _, rfl, rfl, rfl, rfl, rfl, List.prefix_refl _, id⟩

theorem setInstruction_settles (instruction : Instruction) :
    Settles p (p.setStatement (.instruction instruction)) :=
  ⟨.refl _, Nat.le_refl _, rfl, rfl, rfl, rfl, rfl, List.prefix_refl _, fun _ => rfl⟩

theorem report_settles (key : Key) : Settles p (p.report assembler key) :=
  (report_remarks p assembler key).settles

theorem fail_settles (key : Key) : Settles p (p.fail assembler key) :=
  (report_settles p assembler key).trans (invalidate_settles _)

theorem encodeLine_settles (instruction : Instruction) :
    Settles p (p.encodeLine assembler instruction) := by
  unfold encodeLine
  split
  · exact fail_settles p assembler .badFunction
  · split
    · exact invalidate_settles p
    · have stated := setInstruction_settles p (p.substitute instruction)
      dsimp only
      split
      · exact stated.trans (setWord_settles _ _)
      · exact stated.trans (fail_settles _ assembler _)

/-! ### Definitions of labels -/

def Locates (symbols : Symbol.Table) (label : Bytes) (address : Int) : Prop :=
  ∃ symbol, symbols.get? label = some symbol ∧ symbol.location = some address

/-- A label is put at the address, or kept where it was with a warning. -/
theorem defineLabel_cases (label : Bytes) (location : Int) :
    (∃ symbols, p.defineLabel assembler label location = { p with symbols := symbols } ∧
      p.symbols.Step location symbols ∧ Locates symbols label location) ∨
    p.defineLabel assembler label location = p.report assembler .redefined := by
  unfold defineLabel
  split
  · rename_i absent
    refine Or.inl ⟨_, rfl, ?_, ?_⟩
    · rw [Symbol.Table.extend_of_absent absent]
      exact .define label absent
    · rw [Symbol.Table.extend_of_absent absent]
      exact ⟨_, Symbol.Table.get?_insert_self _ ⟨label, some location, .label, 0, 0⟩, rfl⟩
  · rename_i symbol found
    have named := Symbol.Table.label_of_get? found
    split
    · rename_i free
      have unlocated : symbol.location = none := by simpa [Symbol.isLocated] using free.2
      refine Or.inl ⟨_, rfl, ?_, ?_⟩
      · exact .locate symbol (by rw [named, found]) free.1 unlocated
      · exact ⟨{ symbol with location := some location },
          by rw [Symbol.Table.get?_insert, if_pos named], rfl⟩
    · exact Or.inr rfl

/-- The label of the line is put at the location counter, or kept where it was with a warning. -/
theorem defineOwnLabel_cases :
    (∃ symbols, p.defineOwnLabel assembler = { p with symbols := symbols } ∧
      p.symbols.Step p.context.location symbols ∧
      ∀ label, p.line.label = some label → Locates symbols label p.context.location) ∨
    p.defineOwnLabel assembler = p.report assembler .redefined := by
  unfold defineOwnLabel
  split
  · rename_i label named
    rcases defineLabel_cases p assembler label p.context.location with
      ⟨symbols, defined, step, located⟩ | kept
    · refine Or.inl ⟨symbols, defined, step, ?_⟩
      intro other same
      rw [named] at same
      cases same
      exact located
    · exact Or.inr kept
  · rename_i unnamed
    refine Or.inl ⟨p.symbols, rfl, .same _ _, ?_⟩
    intro label named
    rw [unnamed] at named
    cases named

theorem defineOwnLabel_label :
    (p.defineOwnLabel assembler).line.label = p.line.label := by
  rcases defineOwnLabel_cases p assembler with ⟨symbols, defined, _⟩ | kept
  · rw [defined]
  · rw [kept, report_line]

theorem defineOwnLabel_of_unnamed (unnamed : (p.defineOwnLabel assembler).line.label = none) :
    p.defineOwnLabel assembler = p := by
  rw [defineOwnLabel_label] at unnamed
  unfold defineOwnLabel
  rw [unnamed]

/-! ### The four cases -/

/-- What reading a line does to the layout of the program. -/
inductive Advance (p q : Pass) : Prop
  /-- The line takes no word, and gives no label an address unless it is wrong. -/
  | rest (program : p.context.SameProgram q.context)
      (counter : q.context.location = p.context.location)
      (unaddressed : q.line.addressed = false) (target : q.line.resetTarget? = none)
      (symbols : p.symbols.Step p.context.location q.symbols)
      (quiet : q.context.errors ≤ p.context.errors →
        p.symbols.Declares p.context.location q.symbols)
  /-- The line takes the word at the location counter. -/
  | word (program : p.context.SameProgram q.context)
      (room : p.context.location ≤ Word.lastAddress)
      (counter : q.context.location = p.context.location + 1)
      (addressed : q.line.addressed = true) (place : q.line.location = p.context.location)
      (target : q.line.resetTarget? = none)
      (symbols : p.symbols.Step p.context.location q.symbols)
      (label : ∀ label, q.line.label = some label → Key.redefined ∉ q.line.keys →
        Locates q.symbols label p.context.location)
  /-- The line moves the location counter forward. -/
  | skip (address : Int) (program : p.context.SameProgram q.context)
      (forward : p.context.location < address) (room : address ≤ Word.lastAddress)
      (counter : q.context.location = address) (unaddressed : q.line.addressed = false)
      (target : q.line.resetTarget? = some address)
      (symbols : p.symbols.Step address q.symbols)
  /-- The line begins the program. -/
  | begin (name : Bytes) (load : Int) (fresh : p.context.started = false)
      (started : q.context.started = true) (program : q.context.program = name)
      (start : q.context.start = load) (counter : q.context.location = load)
      (lower : 0 ≤ load) (upper : load ≤ Word.lastAddress)
      (unaddressed : q.line.addressed = false) (target : q.line.resetTarget? = none)
      (symbols : q.symbols = p.symbols.extend ⟨name, some load, .programName, 0, 0⟩)

/-- A line that only declares symbols. -/
theorem Advance.declare {p q : Pass} (program : p.context.SameProgram q.context)
    (counter : q.context.location = p.context.location) (unaddressed : q.line.addressed = false)
    (target : q.line.resetTarget? = none)
    (declares : p.symbols.Declares p.context.location q.symbols) : Advance p q :=
  .rest program counter unaddressed target (.declare declares) fun _ => declares

/-- A line takes no word while it is only remarked on. -/
theorem Advance.of_settles {p q : Pass} (settles : Settles p q)
    (unaddressed : p.line.addressed = false) (target : q.line.resetTarget? = none) :
    Advance p q :=
  .declare settles.program settles.counter (settles.addressed.trans unaddressed) target
    (settles.symbols ▸ .same)

/-- Work before the layout changes does not count. -/
theorem Advance.after {p q r : Pass} (program : p.context.SameProgram q.context)
    (errors : p.context.errors ≤ q.context.errors)
    (counter : q.context.location = p.context.location) (symbols : q.symbols = p.symbols)
    (advance : Advance q r) : Advance p r := by
  cases advance with
  | rest same location unaddressed target step quiet =>
    rw [counter, symbols] at step quiet
    exact .rest (program.trans same) (location.trans counter) unaddressed target step
      fun few => quiet (Nat.le_trans few errors)
  | word same room location addressed place target step label =>
    rw [counter] at room location place step label
    rw [symbols] at step
    exact .word (program.trans same) room location addressed place target step label
  | skip address same forward room location unaddressed target step =>
    rw [counter] at forward
    rw [symbols] at step
    exact .skip address (program.trans same) forward room location unaddressed target step
  | begin name load fresh started named start location lower upper unaddressed target step =>
    rw [program.started] at fresh
    rw [symbols] at step
    exact .begin name load fresh started named start location lower upper unaddressed target step

/-! ### Lines with a word -/

/-- One pass is another after the line's own label was defined at the location counter, if it has
one and the label was free. -/
structure Labels (p q : Pass) : Prop where
  program : p.context.SameProgram q.context
  errors : p.context.errors ≤ q.context.errors
  counter : q.context.location = p.context.location
  addressed : q.line.addressed = p.line.addressed
  target : p.line.resetTarget? = none → q.line.resetTarget? = none
  symbols : p.symbols.Step p.context.location q.symbols
  located : ∀ label, q.line.label = some label → Key.redefined ∉ q.line.keys →
    Locates q.symbols label p.context.location

theorem defineOwnLabel_labels : Labels p (p.defineOwnLabel assembler) := by
  rcases defineOwnLabel_cases p assembler with ⟨symbols, defined, step, located⟩ | kept
  · rw [defined]
    exact ⟨.refl _, Nat.le_refl _, rfl, rfl, id, step, fun label named _ => located label named⟩
  · rw [kept]
    have settles := report_settles p assembler .redefined
    refine ⟨settles.program, settles.errors, settles.counter, settles.addressed, settles.target,
      settles.symbols ▸ .same _ _, ?_⟩
    intro label _ quiet
    exact absurd (by simp [Line.keys]) quiet

/-- A line that is wrong after its label was defined. -/
theorem Labels.advance {p q : Pass} (labels : Labels p q) (unaddressed : p.line.addressed = false)
    (target : p.line.resetTarget? = none) (key : Key) (isError : key.severity.isError = true) :
    Advance p (q.report assembler key) := by
  have wrong := report_settles q assembler key
  refine .rest (labels.program.trans wrong.program) (wrong.counter.trans labels.counter)
    (wrong.addressed.trans (labels.addressed.trans unaddressed))
    (wrong.target (labels.target target)) (wrong.symbols ▸ labels.symbols) ?_
  intro few
  have more := labels.errors
  simp only [report_context, Context.count, List.countP_singleton, Catalog.lookup_key, isError,
    ↓reduceIte] at few
  omega

theorem keys_mono {first second : Line}
    (more : first.diagnostics <+: second.diagnostics) : first.keys ⊆ second.keys :=
  List.map_subset _ more.subset

/-- A line that is given a word, unless memory is full. -/
theorem allocate_advance (next : Pass → Pass) (unaddressed : p.line.addressed = false)
    (target : p.line.resetTarget? = none) (settles : ∀ q, Settles q (next q)) :
    Advance p ((p.defineOwnLabel assembler).allocate assembler next) := by
  have labels := defineOwnLabel_labels p assembler
  unfold allocate
  split
  · exact labels.advance assembler unaddressed target .tooLarge rfl
  · rename_i room
    have counter := labels.counter
    have later := settles (p.defineOwnLabel assembler).occupy
    have program : p.context.SameProgram (p.defineOwnLabel assembler).occupy.context :=
      ⟨labels.program.start, labels.program.program, labels.program.started⟩
    have occupied : (p.defineOwnLabel assembler).occupy.line.resetTarget? = none :=
      Line.resetTarget?_none_mono rfl (List.prefix_refl _) (labels.target target)
    refine .word (program.trans later.program) (by omega) ?_ later.addressed ?_
      (later.target occupied) (later.symbols ▸ labels.symbols) ?_
    · rw [later.counter, ← counter]
      rfl
    · rw [later.place, ← counter]
      rfl
    · intro label named quiet
      rw [later.symbols]
      refine labels.located label (later.label.symm.trans named) ?_
      intro known
      exact quiet (keys_mono later.diagnostics known)

/-! ### Directives -/

theorem ignoreLabel_remarks : ∃ added, Remarks p (p.ignoreLabel assembler) added := by
  unfold ignoreLabel
  split
  · exact ⟨_, report_remarks p assembler .labelIgnored⟩
  · exact ⟨_, .refl p⟩

theorem report_advance (key : Key) (unaddressed : p.line.addressed = false)
    (target : p.line.resetTarget? = none) : Advance p (p.report assembler key) :=
  have settles := report_settles p assembler key
  .of_settles settles unaddressed (settles.target target)

theorem beginProgram_advance (name : Bytes) (load : Int) (fresh : p.context.started = false)
    (lower : 0 ≤ load) (upper : load ≤ Word.lastAddress) (unaddressed : p.line.addressed = false)
    (target : p.line.resetTarget? = none) : Advance p (p.beginProgram name load) :=
  .begin name load fresh rfl rfl rfl rfl lower upper unaddressed
    (Line.resetTarget?_none_mono rfl (List.prefix_refl _) target) rfl

theorem applyStart_advance (operand : Operand) (unaddressed : p.line.addressed = false)
    (target : p.line.resetTarget? = none) (value : 0 ≤ operand.value) :
    Advance p (p.applyStart assembler operand) := by
  unfold applyStart
  split
  · exact report_advance p assembler _ unaddressed target
  · rename_i fresh
    have fresh : p.context.started = false := by simpa using fresh
    split
    · split
      · exact beginProgram_advance p _ 0 fresh (Int.le_refl 0) (by decide) unaddressed target
      · exact report_advance p assembler _ unaddressed target
    · split
      · rename_i fits
        exact beginProgram_advance p _ operand.value fresh value fits.2 unaddressed target
      · exact report_advance p assembler _ unaddressed target

theorem applyEnd_advance (operand : Operand) (unaddressed : p.line.addressed = false)
    (target : p.line.resetTarget? = none) : Advance p (p.applyEnd assembler operand) := by
  obtain ⟨added, remarks⟩ := ignoreLabel_remarks p assembler
  have settles := remarks.settles
  refine .after settles.program settles.errors settles.counter settles.symbols ?_
  have unaddressed := settles.addressed.trans unaddressed
  have target := settles.target target
  unfold applyEnd
  dsimp only
  split
  · exact .declare ⟨rfl, rfl, rfl⟩ rfl unaddressed target .same
  · exact report_advance _ assembler _ unaddressed target

theorem equate_advance (label : Bytes) (directive : Directive) (operand : Operand)
    (found : Expression.Evaluator.Equate) (unaddressed : p.line.addressed = false)
    (absent : p.symbols.get? label = none) (other : directive ≠ .reset)
    (value : 0 ≤ p.context.location → 0 ≤ found.value) :
    Advance p (p.equate label directive operand found) := by
  refine .declare ⟨rfl, rfl, rfl⟩ rfl unaddressed
    (Line.resetTarget?_of_directive rfl other) ?_
  simp only [equate]
  rw [Symbol.Table.extend_of_absent absent]
  exact .equate _ absent rfl value

def equateBy (label : Bytes) (directive : Directive) (operand : Operand)
    (outcome : Except Expression.Evaluator.EquateFault Expression.Evaluator.Equate) : Pass :=
  match outcome with
  | .ok found => p.equate label directive operand found
  | .error fault => p.report assembler fault.key

theorem applyEquate_advance (directive : Directive) (operand : Operand)
    (unaddressed : p.line.addressed = false) (target : p.line.resetTarget? = none)
    (other : directive ≠ .reset) (value : 0 ≤ operand.value) :
    Advance p (p.applyEquate assembler directive operand) := by
  unfold applyEquate
  split
  · exact report_advance p assembler _ unaddressed target
  · rename_i label named
    split
    · exact report_advance p assembler _ unaddressed target
    · rename_i known
      have absent : p.symbols.get? label = none :=
        Symbol.Table.contains_eq_false.1 (by simpa using known)
      split
      · split
        · exact equate_advance p _ _ _ _ unaddressed absent other fun _ => value
        · exact report_advance p assembler _ unaddressed target
      · have evaluated : ∀ (entry : Bytes) (limit : Int), Advance p
            ((p.note assembler entry).equateBy assembler label directive operand
              (p.evaluator.equate operand.text p.context.location limit)) := by
          intro entry limit
          refine .after (q := p.note assembler entry) (by simpa using .refl _) (by simp) (by simp)
            (by simp) ?_
          unfold equateBy
          split
          · rename_i found equated
            refine equate_advance _ _ _ _ _ (by simpa using unaddressed) (by simpa using absent)
              other ?_
            simpa using Expression.Evaluator.equate_nonneg equated
          · exact report_advance _ assembler _ (by simpa using unaddressed) (by simpa using target)
        split
        · exact evaluated _ _
        · exact evaluated _ _
        · exact .of_settles (.refl p) unaddressed target
        · exact report_advance p assembler _ unaddressed target

theorem applyEntry_advance (operand : Operand) (unaddressed : p.line.addressed = false)
    (target : p.line.resetTarget? = none) : Advance p (p.applyEntry assembler operand) := by
  obtain ⟨added, remarks⟩ := ignoreLabel_remarks p assembler
  have settles := remarks.settles
  refine .after settles.program settles.errors settles.counter settles.symbols ?_
  have unaddressed := settles.addressed.trans unaddressed
  have target := settles.target target
  unfold applyEntry
  dsimp only
  split
  · split
    · rename_i absent
      refine .declare ⟨rfl, rfl, rfl⟩ rfl unaddressed target ?_
      dsimp only
      rw [Symbol.Table.extend_of_absent absent]
      exact .unlocated operand.text .entry absent (Or.inl rfl)
    · rename_i symbol found
      have named := Symbol.Table.label_of_get? found
      split
      · rename_i usage
        exact .declare ⟨rfl, rfl, rfl⟩ rfl unaddressed target
          (.promote symbol (by rw [named, found]) usage)
      · exact .of_settles (.refl _) unaddressed target
      · exact report_advance _ assembler _ unaddressed target
  · exact report_advance _ assembler _ unaddressed target

theorem applyExternal_advance (operand : Operand) (unaddressed : p.line.addressed = false)
    (target : p.line.resetTarget? = none) : Advance p (p.applyExternal assembler operand) := by
  obtain ⟨added, remarks⟩ := ignoreLabel_remarks p assembler
  have settles := remarks.settles
  refine .after settles.program settles.errors settles.counter settles.symbols ?_
  have unaddressed := settles.addressed.trans unaddressed
  have target := settles.target target
  unfold applyExternal
  dsimp only
  split
  · split
    · exact report_advance _ assembler _ unaddressed target
    · rename_i known
      have absent := Symbol.Table.contains_eq_false.1 (by simpa using known)
      refine .declare ⟨rfl, rfl, rfl⟩ rfl unaddressed target ?_
      dsimp only
      rw [Symbol.Table.extend_of_absent absent]
      exact .unlocated operand.text .external absent (Or.inr rfl)
  · exact report_advance _ assembler _ unaddressed target

theorem resetTarget?_isAddress {operand : Operand} {address : Int}
    (found : p.resetTarget? operand = some address) :
    0 ≤ address ∧ address ≤ Word.lastAddress := by
  unfold Pass.resetTarget? at found
  have inside := (Option.filter_eq_some_iff.1 found).2
  simpa [Expression.isAddress] using inside

/-- A label or operand that RESET does not take is a serious diagnostic. -/
theorem report_serious_target {key : Key} (serious : key.severity = .serious) :
    (p.report assembler key).line.resetTarget? = none := by
  apply Line.resetTarget?_of_serious
  simp [Line.has, serious]

theorem applyReset_advance (operand : Operand) (unaddressed : p.line.addressed = false)
    (clean : p.line.label.isSome = true → operand.kind ≠ .malformed →
      p.line.has .serious = false) : Advance p (p.applyReset assembler operand) := by
  have reported : ∀ key : Key, key.severity = .serious → Advance p (p.report assembler key) :=
    fun key serious => .of_settles (report_settles p assembler key) unaddressed
      (report_serious_target p assembler serious)
  unfold applyReset
  split
  · exact reported .resetLabel rfl
  · rename_i label named
    split
    · exact reported .resetOperand rfl
    · rename_i address found
      split
      · exact reported .resetBackward rfl
      · rename_i forward
        have wellFormed : operand.kind ≠ .malformed := by
          intro malformed
          simp [Pass.resetTarget?, malformed, Operand.Kind.isNumeric, Operand.Kind.isLiteral]
            at found
        have quiet := clean (by simp [named]) wellFormed
        have inside := resetTarget?_isAddress p found
        rcases defineLabel_cases p assembler label address with
          ⟨symbols, defined, step, _⟩ | kept
        · rw [defined]
          refine .skip address ⟨rfl, rfl, rfl⟩ (by omega) inside.2 rfl unaddressed ?_ step
          simp only [Line.has] at quiet
          simp [Line.resetTarget?, Line.directive?, Line.has, quiet]
        · rw [kept]
          refine .skip address ⟨by simp [Context.count], by simp [Context.count],
            by simp [Context.count]⟩ (by omega) inside.2 rfl (by simpa using unaddressed) ?_
            (by simpa using .same _ _)
          simp only [Line.has] at quiet
          simp [Line.resetTarget?, Line.directive?, Line.has, quiet, Key.redefined]

theorem applyData_advance (operand : Operand) (unaddressed : p.line.addressed = false)
    (target : p.line.resetTarget? = none) : Advance p (p.applyData assembler operand) := by
  refine allocate_advance p assembler _ unaddressed target fun q => ?_
  split
  · exact setWord_settles q _
  · split
    · exact .refl q
    · exact report_settles q assembler _

theorem applyConstant_advance (operand : Operand) (unaddressed : p.line.addressed = false)
    (target : p.line.resetTarget? = none) : Advance p (p.applyConstant assembler operand) := by
  refine allocate_advance p assembler _ unaddressed target fun q => ?_
  split
  · exact report_settles q assembler _
  · exact .refl q

theorem applyIdle_advance (operand : Operand) (unaddressed : p.line.addressed = false)
    (target : p.line.resetTarget? = none) : Advance p (p.applyIdle assembler operand) := by
  refine allocate_advance p assembler _ unaddressed target fun q => ?_
  dsimp only
  split
  · exact setWord_settles q _
  · exact (setWord_settles q _).trans (report_settles _ assembler _)

/-- Every directive advances the layout; a RESET only from a line without serious diagnostics. -/
theorem applyDirective_advance (directive : Directive) (operand : Operand)
    (statement : p.line.statement = some (.directive directive operand))
    (unaddressed : p.line.addressed = false) (value : 0 ≤ operand.value)
    (clean : p.line.label.isSome = true → operand.kind ≠ .malformed →
      p.line.has .serious = false) :
    Advance p (p.applyDirective assembler directive operand) := by
  have target : directive ≠ .reset → p.line.resetTarget? = none :=
    Line.resetTarget?_of_directive statement
  cases directive with
  | start => exact applyStart_advance p assembler operand unaddressed (target nofun) value
  | finish => exact applyEnd_advance p assembler operand unaddressed (target nofun)
  | equ =>
    exact applyEquate_advance p assembler _ operand unaddressed (target nofun) (by simp) value
  | eque =>
    exact applyEquate_advance p assembler _ operand unaddressed (target nofun) (by simp) value
  | adc => exact applyConstant_advance p assembler operand unaddressed (target nofun)
  | adce => exact applyConstant_advance p assembler operand unaddressed (target nofun)
  | entry => exact applyEntry_advance p assembler operand unaddressed (target nofun)
  | extrn => exact applyExternal_advance p assembler operand unaddressed (target nofun)
  | reset => exact applyReset_advance p assembler operand unaddressed clean
  | dat => exact applyData_advance p assembler operand unaddressed (target nofun)
  | nop => exact applyIdle_advance p assembler operand unaddressed (target nofun)

/-! ### Whole lines -/

/-- The label that a label column gives, if it is a name of 2 to 32 characters. -/
def acceptedLabel : Option Token → Option Bytes
  | some token =>
    if token.kind = .label ∧ Expression.isLabelLength token.text then some token.text else none
  | none => none

theorem readLabel_cases (column : Option Token) (unnamed : p.line.label = none) :
    p.readLabel assembler column =
        { p with line := { p.line with label := acceptedLabel column } } ∨
      acceptedLabel column = none ∧ ∃ key : Key, key.severity = .serious ∧
        p.readLabel assembler column = p.report assembler key := by
  cases column with
  | none =>
    refine Or.inl ?_
    simp [readLabel, acceptedLabel, ← unnamed]
  | some token =>
    unfold readLabel
    dsimp only
    split
    · rename_i form
      exact Or.inr ⟨by simp [acceptedLabel, form], .labelForm, rfl, rfl⟩
    · rename_i form
      have form : token.kind = .label := by simpa using form
      split
      · rename_i length
        have length : Expression.isLabelLength token.text = false := by simpa using length
        exact Or.inr ⟨by simp [acceptedLabel, length], .labelLength, rfl, rfl⟩
      · rename_i length
        have length : Expression.isLabelLength token.text = true := by simpa using length
        refine Or.inl ?_
        simp [acceptedLabel, form, length]

theorem readLabel_settles (column : Option Token) (unnamed : p.line.label = none)
    (unstated : p.line.statement = none) :
    p.context.SameProgram (p.readLabel assembler column).context ∧
      p.context.errors ≤ (p.readLabel assembler column).context.errors ∧
      (p.readLabel assembler column).context.location = p.context.location ∧
      (p.readLabel assembler column).symbols = p.symbols ∧
      (p.readLabel assembler column).line.addressed = p.line.addressed ∧
      (p.readLabel assembler column).line.statement = none := by
  rcases readLabel_cases p assembler column unnamed with read | ⟨_, key, _, read⟩
  · rw [read]
    exact ⟨.refl _, Nat.le_refl _, rfl, rfl, rfl, unstated⟩
  · have settles := report_settles p assembler key
    rw [read]
    exact ⟨settles.program, settles.errors, settles.counter, settles.symbols, settles.addressed,
      by simp [unstated]⟩

/-- A line whose label was accepted has no diagnostic for it. -/
theorem readLabel_diagnostics (column : Option Token) (unnamed : p.line.label = none)
    (named : (p.readLabel assembler column).line.label.isSome = true) :
    (p.readLabel assembler column).line.diagnostics = p.line.diagnostics := by
  rcases readLabel_cases p assembler column unnamed with read | ⟨_, key, _, read⟩
  · rw [read]
  · rw [read] at named
    simp [unnamed] at named

/-- The remarks on an operand: nothing is said of one that is well formed. -/
theorem readOperand_remarks (rest : Bytes) :
    ∃ added, Remarks p (p.readOperand assembler rest).2.2 added ∧
      ((p.readOperand assembler rest).1.kind ≠ .malformed → added = []) := by
  have commented : Remarks p (if (Token.next rest).1.kind = .comment then
      p.setComment (some (Token.next rest).1.text) else p) [] := by
    split
    · exact setComment_remarks p _
    · exact .refl p
  unfold readOperand
  dsimp only
  split
  · rename_i malformed
    have reported := commented.trans (report_remarks _ assembler .malformed)
    exact ⟨_, reported, fun well => absurd malformed well⟩
  · exact ⟨_, commented, fun _ => rfl⟩

theorem readFunction_remarks (group : Group) (rest : Bytes) :
    ∃ added, Remarks p (p.readFunction assembler group rest).2.2 added := by
  unfold readFunction
  dsimp only
  split
  · exact ⟨_, setComment_remarks p _⟩
  · obtain ⟨added, remarks, _⟩ := readOperand_remarks p assembler (Token.next rest).2
    exact ⟨added, remarks⟩

/-- The remarks on what follows an operand are no worse than a warning. -/
theorem readTrailing_remarks (rest : Bytes) :
    ∃ added, Remarks p (p.readTrailing assembler rest) added ∧
      ∀ diagnostic ∈ added, diagnostic.key.severity = .warning := by
  unfold readTrailing
  dsimp only
  split
  · exact ⟨[], .refl p, by simp⟩
  · exact ⟨[], setComment_remarks p _, by simp⟩
  · exact ⟨_, report_remarks p assembler .trailing, by simp [Key.trailing]⟩

theorem finishLine_settles (rest : Bytes) : Settles p (p.finishLine assembler rest) := by
  obtain ⟨added, remarks, _⟩ := readTrailing_remarks p assembler rest
  unfold finishLine
  dsimp only
  split
  · exact .refl p
  · split
    · exact remarks.settles.trans (invalidate_settles _)
    · exact remarks.settles

/-- A line without a word keeps its statement to the end. -/
theorem finishLine_target (rest : Bytes) (unaddressed : p.line.addressed = false) :
    (p.finishLine assembler rest).line.resetTarget? = p.line.resetTarget? := by
  obtain ⟨added, remarks, warnings⟩ := readTrailing_remarks p assembler rest
  obtain ⟨comment, line⟩ := remarks.line
  unfold finishLine
  dsimp only
  split
  · rfl
  · have quiet : added.any (·.key.severity == .serious) = false := by
      simp only [List.any_eq_false, beq_iff_eq]
      intro diagnostic member serious
      rw [warnings diagnostic member] at serious
      cases serious
    rw [if_neg (by simp [line, unaddressed])]
    simp [line, Line.resetTarget?, Line.directive?, Line.has, quiet]

/-- Work that leaves the layout alone does not count, after the layout has changed either. -/
theorem Advance.settle {p q r : Pass} (advance : Advance p q) (settles : Settles q r)
    (kept : q.line.addressed = false → r.line.resetTarget? = q.line.resetTarget?) :
    Advance p r := by
  cases advance with
  | rest program counter unaddressed target symbols quiet =>
    exact .rest (program.trans settles.program) (settles.counter.trans counter)
      (settles.addressed.trans unaddressed) (settles.target target) (settles.symbols ▸ symbols)
      fun few => settles.symbols ▸ quiet (Nat.le_trans settles.errors few)
  | word program room counter addressed place target symbols label =>
    refine .word (program.trans settles.program) room (settles.counter.trans counter)
      (settles.addressed.trans addressed) (settles.place.trans place) (settles.target target)
      (settles.symbols ▸ symbols) ?_
    intro name named quiet
    rw [settles.symbols]
    exact label name (settles.label.symm.trans named)
      fun known => quiet (keys_mono settles.diagnostics known)
  | skip address program forward room counter unaddressed target symbols =>
    exact .skip address (program.trans settles.program) forward room
      (settles.counter.trans counter) (settles.addressed.trans unaddressed)
      ((kept unaddressed).trans target) (settles.symbols ▸ symbols)
  | begin name load fresh started program start counter lower upper unaddressed target symbols =>
    exact .begin name load fresh (settles.program.started.trans started)
      (settles.program.program.trans program) (settles.program.start.trans start)
      (settles.counter.trans counter) lower upper (settles.addressed.trans unaddressed)
      (settles.target target) (settles.symbols.trans symbols)

theorem Advance.finishLine {p q : Pass} (advance : Advance p q) (rest : Bytes) :
    Advance p (q.finishLine assembler rest) :=
  advance.settle (finishLine_settles q assembler rest) (finishLine_target q assembler rest)

theorem Advance.noteLine {p q : Pass} (advance : Advance p q) :
    Advance p (q.noteLine assembler) := by
  refine advance.settle ?_ (by simp)
  exact ⟨by simpa using .refl _, by simp, by simp, by simp, by simp, by simp, by simp, by simp,
    by simp⟩

/-- The pass is at a line of which nothing has been read. -/
structure Fresh (p : Pass) : Prop where
  unaddressed : p.line.addressed = false
  unnamed : p.line.label = none
  uncommented : p.line.comment = none
  unstated : p.line.statement = none
  flag : p.line.flag = .absolute
  quiet : p.line.diagnostics = []

theorem Fresh.target {p : Pass} (fresh : Fresh p) : p.line.resetTarget? = none := by
  simp [Line.resetTarget?, Line.directive?, fresh.unstated]

theorem readInstruction_advance (group : Group) (rest : Bytes)
    (unaddressed : p.line.addressed = false) :
    Advance p (p.readInstruction assembler group rest).1 := by
  obtain ⟨added, remarks⟩ := readFunction_remarks p assembler group rest
  have settles := remarks.settles
  let stated := (p.readFunction assembler group rest).2.2.setStatement
    (.instruction (p.readFunction assembler group rest).1)
  have advance : Advance stated (p.readInstruction assembler group rest).1 :=
    allocate_advance stated assembler _ (settles.addressed.trans unaddressed) rfl
      fun q => encodeLine_settles q assembler _
  exact .after (q := stated) settles.program settles.errors settles.counter settles.symbols advance

theorem readDirective_advance (directive : Directive) (rest : Bytes)
    (unaddressed : p.line.addressed = false)
    (quiet : p.line.label.isSome = true → p.line.diagnostics = []) :
    Advance p (p.readDirective assembler directive rest).1 := by
  obtain ⟨added, remarks, silent⟩ := readOperand_remarks p assembler rest
  obtain ⟨comment, line⟩ := remarks.line
  have settles := remarks.settles
  let stated := (p.readOperand assembler rest).2.2.setStatement
    (.directive directive (p.readOperand assembler rest).1)
  refine .after (q := stated) settles.program settles.errors settles.counter settles.symbols ?_
  refine applyDirective_advance stated assembler directive _ rfl
    (settles.addressed.trans unaddressed) (Operand.ofToken_next_nonneg rest) ?_
  intro named wellFormed
  have named : p.line.label.isSome = true := by
    rw [← settles.label]
    exact named
  have none : (p.readOperand assembler rest).2.2.line.diagnostics = [] := by
    rw [line]
    simp [quiet named, silent wellFormed]
  simp [stated, Line.has, none]

theorem readUnknown_advance (columns : Columns) (unaddressed : p.line.addressed = false)
    (target : p.line.resetTarget? = none) : Advance p (p.readUnknown assembler columns) := by
  have commented : ∀ q : Pass, q.line.addressed = false → q.line.resetTarget? = none →
      Advance q (if (q.defineOwnLabel assembler).line.label.isNone ∧ columns.label.isSome ∧
        (columns.command.kind = .empty ∨ columns.command.kind = .comment) then
          q.defineOwnLabel assembler
        else (q.defineOwnLabel assembler).report assembler .badCommand) := by
    intro q unaddressed target
    have labels := defineOwnLabel_labels q assembler
    split
    · rename_i unnamed
      rw [defineOwnLabel_of_unnamed q assembler (by simpa using unnamed.1)]
      exact .of_settles (.refl q) unaddressed target
    · exact labels.advance assembler unaddressed target .badCommand rfl
  unfold readUnknown
  dsimp only
  split
  · refine .after (q := p.setComment (some columns.command.text)) (.refl _) (Nat.le_refl _) rfl rfl
      ?_
    exact commented _ unaddressed
      (Line.resetTarget?_none_mono rfl (List.prefix_refl _) target)
  · exact commented p unaddressed target

section Command

variable {p assembler} {columns : Columns} (split : assembler.columns p.line.source = columns)
include split

theorem readCommand_group {group : Group}
    (command : assembler.command? columns.command = some (.group group)) :
    p.readCommand assembler =
      ((p.readLabel assembler columns.label).readInstruction assembler group
        columns.rest).1.finishLine assembler
      ((p.readLabel assembler columns.label).readInstruction assembler group columns.rest).2 := by
  subst split
  simp only [readCommand, command]

theorem readCommand_directive {directive : Directive}
    (command : assembler.command? columns.command = some (.directive directive)) :
    p.readCommand assembler =
      ((p.readLabel assembler columns.label).readDirective assembler directive
        columns.rest).1.finishLine assembler
      ((p.readLabel assembler columns.label).readDirective assembler directive columns.rest).2 := by
  subst split
  simp only [readCommand, command]

theorem readCommand_unknown (command : assembler.command? columns.command = none) :
    p.readCommand assembler =
      (p.readLabel assembler columns.label).readUnknown assembler columns := by
  subst split
  simp only [readCommand, command]

end Command

theorem readCommand_advance (fresh : Fresh p) : Advance p (p.readCommand assembler) := by
  obtain ⟨program, errors, counter, symbols, addressed, unstated⟩ := readLabel_settles p assembler
    (assembler.columns p.line.source).label fresh.unnamed fresh.unstated
  have unaddressed := addressed.trans fresh.unaddressed
  have quiet := readLabel_diagnostics p assembler
    (assembler.columns p.line.source).label fresh.unnamed
  refine .after program errors counter symbols ?_
  unfold readCommand
  dsimp only
  split
  · exact (readInstruction_advance _ assembler _ _ unaddressed).finishLine assembler _
  · exact (readDirective_advance _ assembler _ _ unaddressed
      fun named => (quiet named).trans fresh.quiet).finishLine assembler _
  · exact readUnknown_advance _ assembler _ unaddressed
      (by simp [Line.resetTarget?, Line.directive?, unstated])

/-- A line is refused, or blank, or read for its command. -/
theorem readLine_cases :
    (∃ key : Key, key.severity = .fatal ∧ p.readLine assembler = p.report assembler key) ∨
      p.readLine assembler = p.readBlank ∨
      p.context.ended = false ∧ Line.isBlank p.line.source = false ∧
        p.readLine assembler = p.readCommand assembler := by
  unfold readLine
  split
  · exact Or.inl ⟨_, rfl, rfl⟩
  · split
    · exact Or.inl ⟨_, rfl, rfl⟩
    · split
      · exact Or.inr (Or.inl rfl)
      · rename_i open_
        simp only [not_or, Bool.not_eq_true] at open_
        exact Or.inr (Or.inr ⟨open_.1, open_.2, rfl⟩)

/-- Reading a line leaves the layout alone, takes a word, moves forward or begins the program. -/
theorem readLine_advance (fresh : Fresh p) : Advance p (p.readLine assembler) := by
  rcases readLine_cases p assembler with ⟨key, _, refused⟩ | blank | ⟨_, _, command⟩
  · rw [refused]
    exact report_advance p assembler _ fresh.unaddressed fresh.target
  · have settles := (setComment_remarks p (Line.comment? p.line.source)).settles
    rw [blank]
    exact .of_settles settles fresh.unaddressed (settles.target fresh.target)
  · rw [command]
    exact readCommand_advance p assembler fresh

end Pass

end WordAssembler

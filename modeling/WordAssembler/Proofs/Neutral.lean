import Mathlib.Data.List.Forall2
import Mathlib.Data.List.Nodup
import WordAssembler.Proofs.Findings

/-!
A serious diagnostic on a line with a word, from either pass, leaves the idle word 8000 there and no
modification. What was read before is kept: the label, the comment and the other diagnostics.
-/

set_option autoImplicit false

namespace WordAssembler

namespace Line

/-- The line has given up its statement for the idle word. -/
structure Neutral (line : Line) : Prop where
  statement : line.statement = some .invalidated
  word : line.word = 0x8000
  flag : line.flag = .absolute

/-- One line is another after more work, which added diagnostics at most to what was read. -/
structure Keeps (before after : Line) : Prop where
  number : after.number = before.number
  source : after.source = before.source
  location : after.location = before.location
  addressed : after.addressed = before.addressed
  label : after.label = before.label
  comment : after.comment = before.comment
  diagnostics : before.diagnostics <+: after.diagnostics

theorem Keeps.trans {first second third : Line} (left : first.Keeps second)
    (right : second.Keeps third) : first.Keeps third :=
  ⟨right.number.trans left.number, right.source.trans left.source,
    right.location.trans left.location, right.addressed.trans left.addressed,
    right.label.trans left.label, right.comment.trans left.comment,
    left.diagnostics.trans right.diagnostics⟩

theorem Keeps.of_diagnostics (line : Line) (added : List Diagnostic) :
    line.Keeps { line with diagnostics := line.diagnostics ++ added } :=
  ⟨rfl, rfl, rfl, rfl, rfl, rfl, List.prefix_append _ _⟩

theorem Exported.keeps {line exported : Line} (change : line.Exported exported) :
    line.Keeps exported := by
  cases change with
  | same => exact ⟨rfl, rfl, rfl, rfl, rfl, rfl, List.prefix_refl _⟩
  | remarked operand added entry => exact .of_diagnostics line added

end Line

namespace Scope

variable (scope : Scope) (assembler : Assembler) {line : Line}

theorem lineAfter_keeps (line : Line) : line.Keeps (scope.lineAfter assembler line) := by
  unfold lineAfter
  split
  · have remarked := Line.Keeps.of_diagnostics line ((scope.resolution line).remarks assembler)
    cases resolved : scope.resolution line <;> rw [resolved] at remarked <;>
      exact ⟨rfl, rfl, rfl, rfl, rfl, rfl, remarked.diagnostics⟩
  · exact ⟨rfl, rfl, rfl, rfl, rfl, rfl, List.prefix_refl _⟩

/-- The flag of a line tells whether the linker adjusts its word. -/
theorem lineAfter_flag (addressed : line.addressed = true) :
    (scope.lineAfter assembler line).flag = .modify ↔
      (scope.modification? line).isSome = true := by
  rw [lineAfter, modification?, if_pos addressed, if_pos addressed]
  cases resolved : scope.resolution line with
  | settled word flag =>
    have other : flag ≠ .modify := by
      rcases resolution_flag resolved with rfl | rfl <;> exact Flag.noConfusion
    simpa [Resolution.line, Resolution.modification?] using other
  | adjusted word adjustments => simp [Resolution.line, Resolution.modification?]
  | faulty key => simp [Resolution.line, Resolution.modification?, Line.invalidate]

theorem addressed_of_modification? {scope : Scope} {modification : Modification}
    (found : scope.modification? line = some modification) : line.addressed = true := by
  unfold modification? at found
  split at found
  · assumption
  · cases found

theorem modification?_location {modification : Modification}
    (found : scope.modification? line = some modification) :
    modification.location = line.location := by
  unfold modification? at found
  split at found
  · cases resolved : scope.resolution line with
    | adjusted word adjustments =>
      rw [resolved] at found
      cases found
      rfl
    | settled word flag =>
      rw [resolved] at found
      cases found
    | faulty key =>
      rw [resolved] at found
      cases found
  · cases found

/-- A serious diagnostic neutralises the word on the second pass, if it did so on the first. -/
theorem lineAfter_neutral (addressed : line.addressed = true) (worded : line.Worded assembler)
    (serious : (scope.lineAfter assembler line).has .serious = true) :
    (scope.lineAfter assembler line).Neutral ∧ scope.modification? line = none := by
  rw [lineAfter, if_pos addressed] at serious ⊢
  rw [modification?, if_pos addressed]
  have earlier : line.has .serious = true →
      scope.resolution line = .settled Line.idleWord .absolute := by
    intro serious
    have invalidated := worded.serious serious
    rw [resolution_of_invalidated invalidated, worded.idle invalidated]
  cases resolved : scope.resolution line with
  | settled word flag =>
    rw [resolved] at serious earlier
    have before : line.has .serious = true := by
      simpa [Resolution.line, Resolution.remarks, Line.has] using serious
    cases earlier before
    exact ⟨⟨worded.serious before, rfl, rfl⟩, rfl⟩
  | adjusted word adjustments =>
    rw [resolved] at serious earlier
    have warned : ∀ diagnostic ∈ (Resolution.adjusted word adjustments).remarks assembler,
        diagnostic.key.severity ≠ .serious := by
      intro diagnostic member
      simp only [Resolution.remarks] at member
      split at member
      · rw [List.mem_singleton.1 member, Catalog.lookup_key]
        exact Severity.noConfusion
      · cases member
    have before : line.has .serious = true := by
      simp only [Resolution.line, Line.has, List.any_append, Bool.or_eq_true] at serious ⊢
      rcases serious with old | added
      · exact old
      · obtain ⟨diagnostic, member, same⟩ := List.any_eq_true.1 added
        exact absurd (by simpa using same) (warned diagnostic member)
    cases earlier before
  | faulty key => exact ⟨⟨rfl, rfl, rfl⟩, rfl⟩

end Scope

/-! ### Programs -/

/-- The lines of a program as read are those of its reading, but for a warning on the last. -/
theorem Reading.Closed.lines_worded {assembler : Assembler} {reading : Reading} {program : Program}
    (closed : reading.Closed assembler program)
    (worded : ∀ line ∈ reading.lines, line.addressed = true → line.Worded assembler) :
    ∀ line ∈ program.lines, line.addressed = true → line.Worded assembler := by
  cases closed with
  | ended same =>
    rw [same]
    exact fun line member => worded line (List.mem_reverse.1 member)
  | unended last earlier lines same =>
    rw [same]
    rw [lines] at worded
    intro line member addressed
    rcases List.mem_cons.1 (List.mem_reverse.1 member) with rfl | before
    · have known := worded last List.mem_cons_self addressed
      refine ⟨known.label, known.comment, known.flag, known.idle, known.other, ?_⟩
      intro serious
      exact known.serious (by simpa [Line.unended, Line.has, Key.noEnd] using serious)
    · exact worded line (List.mem_cons_of_mem _ before) addressed

theorem Line.statement_of_directive? {line : Line} {directive : Directive} {operand : Operand}
    (found : line.directive? = some (directive, operand)) :
    line.statement = some (.directive directive operand) := by
  unfold directive? at found
  split at found
  · cases found
    assumption
  · cases found

/-- An exported line with a word is as it was read. -/
theorem Line.Worded.exported {assembler : Assembler} {line exported : Line}
    (worded : line.Worded assembler) (change : line.Exported exported) : exported = line := by
  cases change with
  | same => rfl
  | remarked operand added entry =>
    exact absurd (Line.statement_of_directive? entry) (worded.other operand)

/-- The items that a function gives something for, beside what it gives. -/
theorem forall₂_filterMap {α β γ : Type} {relates : γ → β → Prop} {test : γ → Bool}
    {after : α → γ} {give : α → Option β} {items : List α}
    (tested : ∀ item ∈ items, test (after item) = (give item).isSome)
    (related : ∀ item ∈ items, ∀ given, give item = some given → relates (after item) given) :
    List.Forall₂ relates ((items.map after).filter test) (items.filterMap give) := by
  induction items with
  | nil => exact .nil
  | cons item rest ih =>
    have later := ih (fun other member => tested other (List.mem_cons_of_mem _ member))
      (fun other member => related other (List.mem_cons_of_mem _ member))
    have here := tested item List.mem_cons_self
    cases given : give item with
    | none =>
      rw [given] at here
      rw [List.map_cons, List.filter_cons_of_neg (by simp [here]), List.filterMap_cons_none given]
      exact later
    | some value =>
      rw [given] at here
      rw [List.map_cons, List.filter_cons_of_pos here, List.filterMap_cons_some given]
      exact .cons (related item List.mem_cons_self value given) later

namespace Emits

variable {assembler : Assembler} {program : Program} {exported : List Line} {emitted : Emitted}
  (emits : Emits assembler program exported emitted)
include emits

theorem keeps : List.Forall₂ Line.Keeps program.lines emitted.program.lines := by
  obtain ⟨change, changes, same⟩ := emits.change
  rw [emits.lines, same, List.map_map, List.forall₂_map_right_iff, List.forall₂_same]
  intro line _
  exact (changes line).keeps.trans (program.scope.lineAfter_keeps assembler _)

/-- A line of the program is found in its place after the second pass. -/
theorem line_kept {k : Nat} {line : Line} (here : program.lines[k]? = some line) :
    ∃ later, emitted.program.lines[k]? = some later ∧ line.Keeps later := by
  obtain ⟨change, changes, same⟩ := emits.change
  refine ⟨_, ?_, (changes line).keeps.trans (program.scope.lineAfter_keeps assembler _)⟩
  rw [emits.lines, same, List.getElem?_map, List.getElem?_map, here]
  rfl

/-- What holds of each line with a word and its text record holds of the records in their order. -/
theorem forall₂_text {relates : Line → TextRecord → Prop}
    (related : ∀ line ∈ exported, line.addressed = true →
      relates (program.scope.lineAfter assembler line) (program.scope.record assembler line)) :
    List.Forall₂ relates (emitted.program.lines.filter (·.addressed)) emitted.file.text := by
  rw [emits.lines, emits.text, List.filter_map, List.forall₂_map_left_iff,
    List.forall₂_map_right_iff]
  have same : exported.filter ((fun line => line.addressed) ∘ program.scope.lineAfter assembler) =
      exported.filter (·.addressed) := by
    apply List.filter_congr
    intro line _
    exact (program.scope.lineAfter_keeps assembler line).addressed
  rw [same, List.forall₂_same]
  intro line member
  obtain ⟨member, addressed⟩ := List.mem_filter.1 member
  exact related line member addressed

/-- What holds of each line with a word and its modification holds of the modifications in their
order. -/
theorem forall₂_modifications {relates : Line → Modification → Prop}
    (related : ∀ line ∈ exported, line.addressed = true → ∀ modification,
      program.scope.modification? line = some modification →
        relates (program.scope.lineAfter assembler line) modification) :
    List.Forall₂ relates
      (emitted.program.lines.filter fun line => line.addressed && line.flag == .modify)
      emitted.file.modifications := by
  rw [emits.lines, emits.modifications]
  apply forall₂_filterMap
  · intro line _
    rw [(program.scope.lineAfter_keeps assembler line).addressed]
    cases addressed : line.addressed with
    | false => simp [Scope.modification?, addressed]
    | true =>
      rw [Bool.true_and, Bool.eq_iff_iff, beq_iff_eq]
      exact program.scope.lineAfter_flag assembler addressed
  · intro line member modification found
    exact related line member (Scope.addressed_of_modification? found) modification found

variable (worded : ∀ line ∈ program.lines, line.addressed = true → line.Worded assembler)
include worded

/-- A line with a word is exported as it was read. -/
theorem mem_of_exported : ∀ line ∈ exported, line.addressed = true → line ∈ program.lines := by
  obtain ⟨change, changes, same⟩ := emits.change
  rw [same]
  intro line member addressed
  obtain ⟨before, known, rfl⟩ := List.mem_map.1 member
  rw [(changes before).addressed] at addressed
  rw [(worded before known addressed).exported (changes before)]
  exact known

theorem exported_worded : ∀ line ∈ exported, line.addressed = true → line.Worded assembler :=
  fun line member addressed =>
    worded line (emits.mem_of_exported worded line member addressed) addressed

theorem neutral : ∀ line ∈ emitted.program.lines, line.addressed = true →
    line.has .serious = true → line.Neutral := by
  rw [emits.lines]
  intro line member addressed serious
  obtain ⟨before, known, rfl⟩ := List.mem_map.1 member
  rw [(program.scope.lineAfter_keeps assembler before).addressed] at addressed
  exact (program.scope.lineAfter_neutral assembler addressed
    (emits.exported_worded worded before known addressed) serious).1

/-- The text records beside the lines with a word. -/
theorem text_neutral : List.Forall₂ (fun line record => record.location = line.location ∧
      (line.has .serious = true → record =
        ⟨line.location, 0x8000, .absolute, 0, emitted.program.context.program⟩))
    (emitted.program.lines.filter (·.addressed)) emitted.file.text := by
  obtain ⟨reported, context, _⟩ := emits.context
  refine emits.forall₂_text fun line member addressed => ⟨rfl, fun serious => ?_⟩
  obtain ⟨neutral, none⟩ := program.scope.lineAfter_neutral assembler addressed
    (emits.exported_worded worded line member addressed) serious
  rw [Scope.record, none, Emission.textRecord, neutral.word, neutral.flag, context]
  rfl

/-- The modifications beside the lines whose word the linker adjusts. -/
theorem modifications_neutral : List.Forall₂ (fun line modification =>
      modification.location = line.location ∧ line.has .serious = false)
    (emitted.program.lines.filter fun line => line.addressed && line.flag == .modify)
    emitted.file.modifications := by
  refine emits.forall₂_modifications fun line member addressed modification found => ⟨?_, ?_⟩
  · rw [(program.scope.lineAfter_keeps assembler line).location]
    exact program.scope.modification?_location found
  · cases serious : (program.scope.lineAfter assembler line).has .serious with
    | false => rfl
    | true =>
      have none := (program.scope.lineAfter_neutral assembler addressed
        (emits.exported_worded worded line member addressed) serious).2
      rw [none] at found
      cases found

/-- What a line with a word holds is what its source says. -/
theorem source_kept : ∀ line ∈ emitted.program.lines, line.addressed = true →
    line.label = Pass.acceptedLabel (assembler.columns line.source).label ∧
      line.comment = assembler.commentOf line.source := by
  rw [emits.lines]
  intro line member addressed
  obtain ⟨before, known, rfl⟩ := List.mem_map.1 member
  have keeps := program.scope.lineAfter_keeps assembler before
  rw [keeps.addressed] at addressed
  have worded := emits.exported_worded worded before known addressed
  rw [keeps.label, keeps.comment, keeps.source]
  exact ⟨worded.label, worded.comment⟩

omit worded in
theorem addresses : Line.addresses emitted.program.lines = emitted.file.text.map (·.location) := by
  obtain ⟨change, changes, same⟩ := emits.change
  rw [emits.text_locations, emits.lines, same,
    Line.addresses_map (fun line => (program.scope.lineAfter_keeps assembler line).addressed)
      (fun line => (program.scope.lineAfter_keeps assembler line).location),
    Line.addresses_map (fun line => (changes line).addressed)
      (fun line => (changes line).location)]

/-- Where no two words share a location, no modification is at the location of a neutral line. -/
theorem modification_elsewhere (distinct : (emitted.file.text.map (·.location)).Nodup) :
    ∀ line ∈ emitted.program.lines, line.addressed = true → line.has .serious = true →
      ∀ modification ∈ emitted.file.modifications, modification.location ≠ line.location := by
  rw [← emits.addresses] at distinct
  intro line member addressed serious modification found same
  rw [emits.modifications] at found
  obtain ⟨before, known, gives⟩ := List.mem_filterMap.1 found
  have place := program.scope.modification?_location gives
  have keeps := program.scope.lineAfter_keeps assembler before
  have word := Scope.addressed_of_modification? gives
  have other : program.scope.lineAfter assembler before = line := by
    refine List.inj_on_of_nodup_map distinct ?_ (List.mem_filter.2 ⟨member, addressed⟩) ?_
    · refine List.mem_filter.2 ⟨?_, keeps.addressed.trans word⟩
      rw [emits.lines]
      exact List.mem_map_of_mem known
    · rw [keeps.location, ← place, same]
  rw [← other] at serious
  have none := (program.scope.lineAfter_neutral assembler word
    (emits.exported_worded worded before known word) serious).2
  rw [none] at gives
  cases gives

end Emits

/-- The lines with a word of a source that was read without a fault. -/
theorem Assembler.parse_worded (assembler : Assembler) (text : Bytes)
    (running : (assembler.parse text).program.context.fatal = false) :
    ∀ line ∈ (assembler.parse text).program.lines, line.addressed = true →
      line.Worded assembler := by
  obtain ⟨unhalted, closed⟩ := assembler.parse_running text running
  exact closed.lines_worded (Reading.lines_worded unhalted)

/-- What the first pass found on a line with a word is on it to the end, wherever the line was given
up. -/
theorem Emits.faults_kept {assembler : Assembler} {text : Bytes} {exported : List Line}
    {emitted : Emitted} (emits : Emits assembler (assembler.parse text).program exported emitted)
    {k : Nat} {source : Bytes} {line : Line} (here : (Lines.read text).lines[k]? = some source)
    (found : emitted.program.lines[k]? = some line) (addressed : line.addressed = true) :
    (((Reading.ofLines assembler ((Lines.read text).lines.take k)).fresh (source, k + 1)).faults
      assembler).map assembler.catalog.lookup <+: line.diagnostics := by
  obtain ⟨running, closed⟩ := assembler.parse_running text emits.running
  obtain ⟨diagnostics, earlier, placed⟩ :=
    closed.line_of_reading (Reading.line_of_source here running)
  obtain ⟨later, same, keeps⟩ := emits.line_kept placed
  rw [found] at same
  cases same
  rw [← Reading.stepped_finds here running (keeps.addressed.symm.trans addressed)]
  exact earlier.trans keeps.diagnostics

/-- A line with a word and a serious diagnostic, of either pass, is invalidated with the idle word,
its text record says so, and none of the modifications, which are in the order of their lines, is of
that line. Its label, its comment and the diagnostics before are kept: all that the first pass found
wrong, from the label column to what follows the operand, is on the line before what the second pass
adds. If the first line begins the program, no modification is at the location of the line. -/
theorem Assembler.serious_neutralises (assembler : Assembler) (text : Bytes) (date : Date)
    (emitted : Emitted)
    (success : assembler.emit (assembler.parse text).program date = .ok emitted) :
    (∀ line ∈ emitted.program.lines, line.addressed = true → line.has .serious = true →
        line.Neutral) ∧
      List.Forall₂ (fun line record => record.location = line.location ∧
          (line.has .serious = true → record =
            ⟨line.location, 0x8000, .absolute, 0, emitted.program.context.program⟩))
        (emitted.program.lines.filter (·.addressed)) emitted.file.text ∧
      List.Forall₂ (fun line modification =>
          modification.location = line.location ∧ line.has .serious = false)
        (emitted.program.lines.filter fun line => line.addressed && line.flag == .modify)
        emitted.file.modifications ∧
      List.Forall₂ Line.Keeps (assembler.parse text).program.lines emitted.program.lines ∧
      (∀ (k : Nat) (source : Bytes) (line : Line), (Lines.read text).lines[k]? = some source →
        emitted.program.lines[k]? = some line → line.addressed = true →
          (((Reading.ofLines assembler ((Lines.read text).lines.take k)).fresh
            (source, k + 1)).faults assembler).map assembler.catalog.lookup <+:
              line.diagnostics) ∧
      (∀ line ∈ emitted.program.lines, line.addressed = true →
        line.label = Pass.acceptedLabel (assembler.columns line.source).label ∧
          line.comment = assembler.commentOf line.source) ∧
      ((Reading.ofLines assembler ((Lines.read text).lines.take 1)).context.started = true →
        ∀ line ∈ emitted.program.lines, line.addressed = true → line.has .serious = true →
          ∀ modification ∈ emitted.file.modifications,
            modification.location ≠ line.location) := by
  obtain ⟨exported, emits⟩ := assembler.emit_emits success
  have worded := assembler.parse_worded text emits.running
  refine ⟨emits.neutral worded, emits.text_neutral worded, emits.modifications_neutral worded,
    emits.keeps, fun _ _ _ => emits.faults_kept, emits.source_kept worded, ?_⟩
  exact fun started => emits.modification_elsewhere worded (Assembler.text_distinct started success)

/-- A source with a jump to a label that is nowhere defined, found by the second pass, and a line
that the first pass gives up, with something wrong before and after the function. -/
def lostSource : Bytes :=
  ascii "PROG START 0\nJUMPS JUMP EQUAL NOWHERE :lost\nJUMPS JUMP ASIDE X=ZZ more\n END PROG"

theorem Assembler.serious_neutralises_lostSource : ∃ emitted jump other,
    Assembler.emit {} (Assembler.parse {} lostSource).program Date.first = .ok emitted ∧
      emitted.program.lines[1]? = some jump ∧ emitted.program.lines[2]? = some other ∧
      (jump.addressed = true ∧ jump.has .serious = true ∧ jump.Neutral) ∧
      (other.addressed = true ∧ other.has .serious = true ∧ other.Neutral) ∧
      jump.comment = some (ascii ":lost") ∧
      [Key.malformed, .redefined, .badFunction, .trailing].map Catalog.standard.lookup <+:
        other.diagnostics ∧
      emitted.file.text = [⟨0, 0x8000, .absolute, 0, ascii "PROG"⟩,
        ⟨1, 0x8000, .absolute, 0, ascii "PROG"⟩] ∧
      emitted.file.modifications = [] := by
  have lines : (Assembler.emit {} (Assembler.parse {} lostSource).program
      Date.first).toOption.map (fun emitted => (emitted.program.lines.map fun line =>
        (line.addressed, line.has .serious, line.comment))) =
      some [(false, false, none), (true, true, some (ascii ":lost")), (true, true, none),
        (false, false, none)] := by
    decide +kernel
  have records : (Assembler.emit {} (Assembler.parse {} lostSource).program
      Date.first).toOption.map (fun emitted => (emitted.file.text, emitted.file.modifications)) =
      some ([⟨0, 0x8000, .absolute, 0, ascii "PROG"⟩, ⟨1, 0x8000, .absolute, 0, ascii "PROG"⟩],
        []) := by
    decide +kernel
  have here : (Lines.read lostSource).lines[2]? = some (ascii "JUMPS JUMP ASIDE X=ZZ more") := by
    decide +kernel
  have wrong : ((Reading.ofLines {} ((Lines.read lostSource).lines.take 2)).fresh
      (ascii "JUMPS JUMP ASIDE X=ZZ more", 3)).faults {} =
        [.malformed, .redefined, .badFunction, .trailing] := by
    decide +kernel
  cases success : Assembler.emit {} (Assembler.parse {} lostSource).program Date.first with
  | error fault =>
    rw [success] at lines
    cases lines
  | ok emitted =>
    rw [success] at lines records
    obtain ⟨neutral, _, _, _, kept, _⟩ :=
      Assembler.serious_neutralises {} lostSource Date.first emitted success
    have places := Option.some.inj lines
    have first := congrArg (·[1]?) places
    have second := congrArg (·[2]?) places
    simp only [List.getElem?_map, Option.map_eq_some_iff, List.getElem?_cons_succ,
      List.getElem?_cons_zero, Prod.mk.injEq] at first second
    obtain ⟨jump, jumps, wordJump, seriousJump, comment⟩ := first
    obtain ⟨other, others, wordOther, seriousOther, _⟩ := second
    have remarked := kept 2 _ other here others wordOther
    rw [wrong] at remarked
    obtain ⟨text, modifications⟩ := Prod.mk.inj (Option.some.inj records)
    exact ⟨emitted, jump, other, rfl, jumps, others,
      ⟨wordJump, seriousJump, neutral _ (List.mem_of_getElem? jumps) wordJump seriousJump⟩,
      ⟨wordOther, seriousOther, neutral _ (List.mem_of_getElem? others) wordOther seriousOther⟩,
      comment, remarked, text, modifications⟩

end WordAssembler

import Mathlib.Data.List.Nodup
import WordAssembler.Proofs.Clean
import WordAssembler.Proofs.Neutral
import WordAssembler.Proofs.Statements

/-!
The linking records of an object file. They come from the entries of the symbol table and from the
RESET lines, and each gives a label at the address that the table has for it. The RESET lines put
different labels at different places, so a label is exported twice only as an entry and by its RESET
line; and a RESET line with a warning exports its label only as an entry.
-/

set_option autoImplicit false

namespace WordAssembler

/-- The label that a RESET line put at an address, and that address. -/
def Line.placed? (line : Line) : Option (Bytes × Int) :=
  match line.resetTarget?, line.label with
  | some target, some label => if Key.redefined ∈ line.keys then none else some (label, target)
  | _, _ => none

namespace Line

theorem placed?_eq_some_iff {line : Line} {label : Bytes} {target : Int} :
    line.placed? = some (label, target) ↔
      line.resetTarget? = some target ∧ line.label = some label ∧ Key.redefined ∉ line.keys := by
  unfold placed?
  cases line.resetTarget? <;> cases line.label <;> simp [and_comm, and_assoc]

theorem resetTarget?_unended (assembler : Assembler) (line : Line) :
    (line.unended assembler).resetTarget? = line.resetTarget? := by
  have serious : (line.unended assembler).has .serious = line.has .serious := by
    simp [unended, has, Key.noEnd]
  unfold resetTarget?
  rw [serious]
  rfl

theorem placed?_unended (assembler : Assembler) (line : Line) :
    (line.unended assembler).placed? = line.placed? := by
  have keys : Key.redefined ∈ (line.unended assembler).keys ↔ Key.redefined ∈ line.keys := by
    simp [unended, keys, Key.noEnd, Key.redefined]
  unfold placed?
  simp only [resetTarget?_unended, keys]
  rfl

theorem directive?_of_resetTarget? {line : Line} {target : Int}
    (moved : line.resetTarget? = some target) :
    ∃ operand, line.directive? = some (.reset, operand) ∧ operand.value = target := by
  unfold resetTarget? at moved
  split at moved
  · rename_i operand found
    split at moved
    · cases moved
    · exact ⟨operand, found, Option.some.inj moved⟩
  · cases moved

/-- A RESET line without diagnostics moved the location counter to its operand. -/
theorem resetTarget?_of_quiet {line : Line} {operand : Operand}
    (reset : line.directive? = some (.reset, operand)) (quiet : line.diagnostics = []) :
    line.resetTarget? = some operand.value := by
  simp [resetTarget?, reset, has, quiet]

end Line

/-! ### One line -/

namespace Pass

theorem Locates.eq {symbols : Symbol.Table} {label : Bytes} {first second : Int}
    (one : Locates symbols label first) (other : Locates symbols label second) :
    first = second := by
  obtain ⟨symbol, found, located⟩ := one
  obtain ⟨again, same, here⟩ := other
  rw [found] at same
  cases same
  rw [located] at here
  exact Option.some.inj here

/-- The label of the line is put at the target, if it was nowhere before. -/
structure Places (before : Symbol.Table) (q : Pass) (label : Bytes) (target : Int) : Prop where
  named : q.line.label = some label
  free : Key.redefined ∉ q.line.keys → ∀ address, ¬ Locates before label address
  located : Key.redefined ∉ q.line.keys → Locates q.symbols label target

theorem Places.settle {before : Symbol.Table} {q r : Pass} {label : Bytes} {target : Int}
    (places : Places before q label target) (settles : Settles q r) :
    Places before r label target := by
  have quiet : Key.redefined ∉ r.line.keys → Key.redefined ∉ q.line.keys :=
    mt fun known => keys_mono settles.diagnostics known
  refine ⟨settles.label.trans places.named, fun own => places.free (quiet own), fun own => ?_⟩
  rw [settles.symbols]
  exact places.located (quiet own)

variable {p : Pass} {assembler : Assembler}

/-- A label that has an address is not put elsewhere. -/
theorem defineLabel_of_located {label : Bytes} {address : Int}
    (located : Locates p.symbols label address) (location : Int) :
    p.defineLabel assembler label location = p.report assembler .redefined := by
  obtain ⟨symbol, found, here⟩ := located
  simp [defineLabel, found, Symbol.isLocated, here]

variable (assembler) in
/-- The label of a line is put where it is defined, unless it was somewhere before. -/
theorem defineLabel_places {label : Bytes} (named : p.line.label = some label) (target : Int) :
    Places p.symbols (p.defineLabel assembler label target) label target := by
  have kept : p.defineLabel assembler label target = p.report assembler .redefined →
      Places p.symbols (p.defineLabel assembler label target) label target := by
    intro kept
    have reported : Key.redefined ∈ (p.defineLabel assembler label target).line.keys := by
      simp [kept, Line.keys]
    exact ⟨by simp [kept, named], absurd reported, absurd reported⟩
  -- A label without an address may be taken too, by an external symbol.
  by_cases located : ∃ address, Locates p.symbols label address
  · obtain ⟨address, located⟩ := located
    exact kept (defineLabel_of_located located target)
  · rcases defineLabel_cases p assembler label target with ⟨symbols, defined, _, here⟩ | again
    · rw [defined]
      exact ⟨named, fun _ address known => located ⟨address, known⟩, fun _ => here⟩
    · exact kept again

theorem applyReset_places {operand : Operand} {target : Int}
    (moved : (p.applyReset assembler operand).line.resetTarget? = some target) :
    ∃ label, Places p.symbols (p.applyReset assembler operand) label target := by
  have wrong : ∀ key : Key, key.severity = .serious →
      (p.report assembler key).line.resetTarget? ≠ some target := by
    intro key serious
    rw [report_serious_target p assembler serious]
    exact nofun
  unfold applyReset at moved ⊢
  split
  · rename_i unnamed
    rw [unnamed] at moved
    exact absurd moved (wrong .resetLabel rfl)
  · rename_i label named
    rw [named] at moved
    dsimp only at moved
    split
    · rename_i absent
      rw [absent] at moved
      exact absurd moved (wrong .resetOperand rfl)
    · rename_i address found
      rw [found] at moved
      dsimp only at moved
      split
      · rename_i backward
        rw [if_pos backward] at moved
        exact absurd moved (wrong .resetBackward rfl)
      · rename_i forward
        rw [if_neg forward] at moved
        obtain ⟨operand, stated, rfl⟩ := Line.directive?_of_resetTarget? moved
        cases stated
        have places := defineLabel_places assembler named address
        exact ⟨label, places.named, places.free, places.located⟩

theorem readDirective_places {rest : Bytes} {target : Int}
    (moved : (p.readDirective assembler .reset rest).1.line.resetTarget? = some target) :
    ∃ label, Places p.symbols (p.readDirective assembler .reset rest).1 label target := by
  obtain ⟨added, remarks, _⟩ := readOperand_remarks p assembler rest
  let stated := (p.readOperand assembler rest).2.2.setStatement
    (.directive .reset (p.readOperand assembler rest).1)
  have symbols : stated.symbols = p.symbols := remarks.symbols
  have applied : ∃ label, Places stated.symbols
      (stated.applyReset assembler (p.readOperand assembler rest).1) label target :=
    applyReset_places moved
  rw [symbols] at applied
  exact applied

/-- A RESET line that moved the location counter put its label there, unless it was somewhere
before. -/
theorem readLine_places (fresh : p.Fresh) {target : Int}
    (moved : (p.readLine assembler).line.resetTarget? = some target) :
    ∃ label, Places p.symbols (p.readLine assembler) label target := by
  obtain ⟨operand, reset, _⟩ := Line.directive?_of_resetTarget? moved
  have read := readLine_of_directive fresh reset
  have unaddressed : (p.asDirective assembler .reset).1.line.addressed = false :=
    asDirective_unaddressed fresh (by decide)
  rw [read, finishLine_target _ assembler _ unaddressed] at moved
  obtain ⟨_, _, _, symbols, _, _⟩ := readLabel_settles p assembler
    (assembler.columns p.line.source).label fresh.unnamed fresh.unstated
  obtain ⟨label, places⟩ := readDirective_places moved
  rw [symbols] at places
  rw [read]
  exact ⟨label, places.settle (finishLine_settles _ assembler _)⟩

/-- A line that moves the location counter takes no word. -/
theorem Advance.unaddressed {q : Pass} {target : Int} (advance : Advance p q)
    (moved : q.line.resetTarget? = some target) : q.line.addressed = false := by
  cases advance with
  | rest _ _ unaddressed => exact unaddressed
  | word _ _ _ _ _ unmoved =>
    rw [unmoved] at moved
    cases moved
  | skip _ _ _ _ _ unaddressed => exact unaddressed
  | begin _ _ _ _ _ _ _ _ _ unaddressed => exact unaddressed

/-- A label that has an address keeps it when a line is read. -/
theorem Advance.located {q : Pass} (advance : Advance p q) {label : Bytes} {address : Int}
    (located : Locates p.symbols label address) : Locates q.symbols label address := by
  cases advance with
  | rest _ _ _ _ symbols => exact Reading.labels_kept symbols located
  | word _ _ _ _ _ _ symbols => exact Reading.labels_kept symbols located
  | skip _ _ _ _ _ _ _ symbols => exact Reading.labels_kept symbols located
  | begin name load _ _ _ _ _ _ _ _ _ symbols =>
    obtain ⟨symbol, found, here⟩ := located
    refine ⟨symbol, ?_, here⟩
    rw [symbols]
    cases absent : p.symbols.get? name with
    | none =>
      rw [Symbol.Table.extend_of_absent absent]
      exact (Symbol.Table.get?_insert_of_ne (Symbol.Table.ne_of_absent found absent)).trans found
    | some known => simpa [Symbol.Table.extend, Symbol.Table.contains, absent] using found

end Pass

/-! ### Whole programs -/

/-- Two items of a list that give the same are one, if all that the list gives is different. -/
theorem eq_of_filterMap_nodup {α β : Type} {give : α → Option β} {items : List α}
    (distinct : (items.filterMap give).Nodup) {first second : α} {value : β} (one : first ∈ items)
    (other : second ∈ items) (here : give first = some value) (there : give second = some value) :
    first = second := by
  rw [List.Nodup, List.pairwise_filterMap] at distinct
  induction items with
  | nil => cases one
  | cons head rest ih =>
    obtain ⟨apart, later⟩ := List.pairwise_cons.1 distinct
    rcases List.mem_cons.1 one with rfl | inRest
    · rcases List.mem_cons.1 other with rfl | behind
      · rfl
      · exact absurd rfl (apart second behind value here value there)
    · rcases List.mem_cons.1 other with rfl | behind
      · exact absurd rfl (apart first inRest value there value here)
      · exact ih later inRest behind

/-- The RESET lines among some lines: those that moved the location counter have a label and no
word, and those that put their label somewhere did so to different labels, which the symbols have
there. -/
structure Placement (lines : List Line) (symbols : Symbol.Table) : Prop where
  labelled : ∀ line ∈ lines, ∀ target, line.resetTarget? = some target →
    line.addressed = false ∧ ∃ label, line.label = some label
  located : ∀ line ∈ lines, ∀ label target, line.placed? = some (label, target) →
    Pass.Locates symbols label target
  distinct : ((lines.filterMap Line.placed?).map (·.1)).Nodup

namespace Placement

variable {lines : List Line} {line : Line} {symbols : Symbol.Table}

theorem cons (placement : Placement lines symbols)
    (labelled : ∀ target, line.resetTarget? = some target →
      line.addressed = false ∧ ∃ label, line.label = some label)
    (placed : ∀ label target, line.placed? = some (label, target) →
      Pass.Locates symbols label target ∧
        ∀ other ∈ lines, ∀ address, other.placed? ≠ some (label, address)) :
    Placement (line :: lines) symbols := by
  refine ⟨List.forall_mem_cons.2 ⟨labelled, placement.labelled⟩,
    List.forall_mem_cons.2 ⟨fun label target here => (placed label target here).1,
      placement.located⟩, ?_⟩
  cases here : line.placed? with
  | none =>
    rw [List.filterMap_cons_none here]
    exact placement.distinct
  | some found =>
    obtain ⟨label, target⟩ := found
    rw [List.filterMap_cons_some here, List.map_cons]
    refine List.nodup_cons.2 ⟨?_, placement.distinct⟩
    intro again
    obtain ⟨⟨label, address⟩, member, rfl⟩ := List.mem_map.1 again
    obtain ⟨other, known, there⟩ := List.mem_filterMap.1 member
    exact (placed _ target here).2 other known address there

/-- No two lines put the same label somewhere. -/
theorem eq_of_placed (placement : Placement lines symbols) {first second : Line}
    (one : first ∈ lines) (other : second ∈ lines) {label : Bytes} {target address : Int}
    (here : first.placed? = some (label, target)) (there : second.placed? = some (label, address)) :
    first = second := by
  have distinct := placement.distinct
  rw [List.map_filterMap] at distinct
  have named : first.placed?.map (·.1) = some label := by
    rw [here]
    rfl
  have again : second.placed?.map (·.1) = some label := by
    rw [there]
    rfl
  exact eq_of_filterMap_nodup distinct one other named again

theorem mono {after : Symbol.Table} (placement : Placement lines symbols)
    (kept : ∀ label address, Pass.Locates symbols label address →
      Pass.Locates after label address) : Placement lines after :=
  ⟨placement.labelled, fun line member label target placed =>
    kept label target (placement.located line member label target placed), placement.distinct⟩

theorem reverse (placement : Placement lines symbols) : Placement lines.reverse symbols := by
  refine ⟨fun line member => placement.labelled line (List.mem_reverse.1 member),
    fun line member => placement.located line (List.mem_reverse.1 member), ?_⟩
  rw [List.filterMap_reverse, List.map_reverse, List.nodup_reverse]
  exact placement.distinct

theorem unended (assembler : Assembler) (placement : Placement (line :: lines) symbols) :
    Placement (line.unended assembler :: lines) symbols := by
  obtain ⟨labelled, located, distinct⟩ := placement
  rw [List.forall_mem_cons] at labelled located
  refine ⟨List.forall_mem_cons.2 ⟨?_, labelled.2⟩, List.forall_mem_cons.2 ⟨?_, located.2⟩, ?_⟩
  · rw [Line.resetTarget?_unended]
    exact labelled.1
  · rw [Line.placed?_unended]
    exact located.1
  · rw [List.filterMap_cons, Line.placed?_unended, ← List.filterMap_cons]
    exact distinct

end Placement

namespace Reading

variable {assembler : Assembler} {reading : Reading}

theorem add_placement (numbered : Bytes × Nat)
    (placement : Placement reading.lines reading.symbols) :
    Placement (add assembler reading numbered).lines (add assembler reading numbered).symbols := by
  cases halted : reading.fatal.isSome with
  | true =>
    rw [add_of_halted assembler halted]
    exact placement
  | false =>
    have running : reading.fatal = none := by simpa using halted
    have fresh := reading.fresh_isFresh numbered
    have advance : (reading.fresh numbered).Advance (reading.stepped assembler numbered) :=
      Pass.readLine_advance _ assembler fresh
    rw [add_lines running, add_symbols running]
    refine (placement.mono fun label address located => advance.located located).cons ?_ ?_
    · intro target moved
      obtain ⟨label, places⟩ := Pass.readLine_places fresh moved
      exact ⟨advance.unaddressed moved, label, places.named⟩
    · intro label target placed
      obtain ⟨moved, named, own⟩ := Line.placed?_eq_some_iff.1 placed
      obtain ⟨other, places⟩ := Pass.readLine_places fresh moved
      obtain rfl : other = label := Option.some.inj (places.named.symm.trans named)
      refine ⟨places.located own, ?_⟩
      -- The label of an earlier line had an address when this line was read.
      intro earlier member address there
      exact places.free own address (placement.located earlier member _ _ there)

theorem ofLines_placement (sources : List Bytes) :
    Placement (ofLines assembler sources).lines (ofLines assembler sources).symbols := by
  refine ofLines_induction (fun reading => Placement reading.lines reading.symbols) ?_ ?_ sources
  · exact ⟨List.forall_mem_nil _, List.forall_mem_nil _, List.nodup_nil⟩
  · intro reading numbered placement
    exact add_placement numbered placement

theorem Closed.placement {program : Program} (closed : reading.Closed assembler program)
    (placement : Placement reading.lines reading.symbols) :
    Placement program.lines program.symbols := by
  cases closed with
  | ended same =>
    rw [same]
    exact placement.reverse
  | unended last earlier lines same =>
    rw [lines] at placement
    rw [same]
    exact (placement.unended assembler).reverse

end Reading

/-! ### The second pass -/

theorem Line.Exported.directive? {line exported : Line} (change : line.Exported exported) :
    exported.directive? = line.directive? := by
  cases change <;> rfl

/-- A RESET line is not remarked on when the entries are exported. -/
theorem Line.Exported.eq_of_reset {line exported : Line} {operand : Operand}
    (change : line.Exported exported) (reset : line.directive? = some (.reset, operand)) :
    exported = line := by
  cases change with
  | same => rfl
  | remarked other added entry =>
    rw [reset] at entry
    cases entry

/-- A line that has a target after the second pass had it before. -/
theorem Scope.resetTarget?_of_lineAfter {scope : Scope} {assembler : Assembler} {line : Line}
    {target : Int} (moved : (scope.lineAfter assembler line).resetTarget? = some target) :
    line.resetTarget? = some target := by
  have diagnostics := (scope.lineAfter_keeps assembler line).diagnostics
  have unchanged : (scope.lineAfter assembler line).statement = line.statement := by
    unfold lineAfter at moved ⊢
    split
    · rename_i addressed
      rw [if_pos addressed] at moved
      cases resolved : scope.resolution line with
      | settled word flag => rfl
      | adjusted word adjustments => rfl
      | faulty key =>
        rw [resolved] at moved
        cases moved
    · rfl
  cases before : line.resetTarget? with
  | none =>
    rw [Line.resetTarget?_none_mono unchanged diagnostics before] at moved
    cases moved
  | some address =>
    obtain ⟨operand, reset, rfl⟩ := Line.directive?_of_resetTarget? before
    obtain ⟨later, again, rfl⟩ := Line.directive?_of_resetTarget? moved
    rw [Pass.directive?_of_statement unchanged, reset] at again
    cases again
    rfl

namespace Emits

variable {assembler : Assembler} {program : Program} {exported : List Line} {emitted : Emitted}
  (emits : Emits assembler program exported emitted)
  (placement : Placement program.lines program.symbols)
include emits placement

/-- The second pass leaves the RESET lines that moved the location counter as they are. -/
theorem mem_lines_iff {line : Line} {target : Int} (moved : line.resetTarget? = some target) :
    line ∈ emitted.program.lines ↔ line ∈ program.lines := by
  obtain ⟨change, changes, same⟩ := emits.change
  rw [emits.lines, same]
  have kept : ∀ before ∈ program.lines, before.resetTarget? = some target →
      program.scope.lineAfter assembler (change before) = before := by
    intro before member moved
    obtain ⟨operand, reset, _⟩ := Line.directive?_of_resetTarget? moved
    rw [(changes before).eq_of_reset reset, Scope.lineAfter, if_neg]
    simp [(placement.labelled before member target moved).1]
  constructor
  · intro member
    obtain ⟨after, known, rfl⟩ := List.mem_map.1 member
    obtain ⟨before, read, rfl⟩ := List.mem_map.1 known
    have moved := Scope.resetTarget?_of_lineAfter moved
    obtain ⟨operand, reset, _⟩ := Line.directive?_of_resetTarget? moved
    rw [(changes before).directive?] at reset
    rw [(changes before).eq_of_reset reset] at moved
    rw [kept before read moved]
    exact read
  · intro member
    refine List.mem_map.2 ⟨change line, List.mem_map_of_mem member, kept line member moved⟩

end Emits

/-- The second pass leaves the symbols alone. -/
theorem Assembler.emit_symbols {assembler : Assembler} {program : Program} {date : Date}
    {emitted : Emitted} (success : assembler.emit program date = .ok emitted) :
    emitted.program.symbols = program.symbols := by
  unfold emit at success
  split at success
  · cases success
  · split at success
    · cases success
    · cases success
      exact (Emission.addLines_adds assembler _).symbols.trans
        (Emission.exportEntries_exports assembler (Emission.start program)).symbols

/-! ### Linking records -/

theorem Symbol.Table.labels_nodup (table : Symbol.Table) :
    (table.symbols.map (·.label)).Nodup := by
  refine List.pairwise_map.2 (table.ascending.imp ?_)
  intro first second before same
  exact List.lt_irrefl _ (same ▸ before)

/-- What a list gives is in the order of what it could give. -/
theorem map_filterMap_sublist {α β γ : Type} {give : α → Option β} {view : β → γ}
    {could : α → Option γ} {items : List α}
    (viewed : ∀ item ∈ items, ∀ given, give item = some given → could item = some (view given)) :
    ((items.filterMap give).map view).Sublist (items.filterMap could) := by
  induction items with
  | nil => exact .slnil
  | cons item rest ih =>
    rw [List.forall_mem_cons] at viewed
    have later := ih viewed.2
    cases given : give item with
    | none =>
      rw [List.filterMap_cons_none given]
      refine later.trans ?_
      exact (List.sublist_cons_self item rest).filterMap could
    | some value =>
      rw [List.filterMap_cons_some given, List.filterMap_cons_some (viewed.1 value given)]
      exact later.cons_cons (view value)

theorem Symbol.linking?_eq_some_iff {symbol : Symbol} {program : Bytes} {record : Linking} :
    symbol.linking? program = some record ↔ symbol.usage = .entry ∧
      symbol.location = some record.location ∧ symbol.label = record.entry ∧
        record.program = program := by
  obtain ⟨entry, location, name⟩ := record
  unfold Symbol.linking?
  split
  · rename_i usage
    cases symbol.location <;> simp [usage, and_left_comm, eq_comm]
  · rename_i usage
    simp [usage]

/-- A RESET line is exported just when it has no diagnostics. -/
theorem Scope.linking?_eq_some_iff {scope : Scope} {line : Line} {record : Linking}
    (labelled : ∀ target, line.resetTarget? = some target →
      line.addressed = false ∧ ∃ label, line.label = some label) :
    scope.linking? line = some record ↔ line.diagnostics = [] ∧
      line.placed? = some (record.entry, record.location) ∧
        record.program = scope.evaluator.program := by
  obtain ⟨entry, location, name⟩ := record
  constructor
  · intro exported
    unfold Scope.linking? Emission.resetLinking? at exported
    split at exported
    · cases exported
    · split at exported
      · rename_i operand reset
        split at exported
        · rename_i quiet
          have quiet : line.diagnostics = [] := List.isEmpty_iff.1 quiet
          have moved := Line.resetTarget?_of_quiet reset quiet
          obtain ⟨_, label, named⟩ := labelled _ moved
          rw [named] at exported
          cases exported
          exact ⟨quiet, Line.placed?_eq_some_iff.2 ⟨moved, named, by simp [Line.keys, quiet]⟩, rfl⟩
        · cases exported
      · cases exported
  · rintro ⟨quiet, placed, rfl⟩
    obtain ⟨moved, named, _⟩ := Line.placed?_eq_some_iff.1 placed
    obtain ⟨operand, reset, value⟩ := Line.directive?_of_resetTarget? moved
    simp [Scope.linking?, (labelled _ moved).1, Emission.resetLinking?, reset, quiet, named, value]

namespace Program

variable (program : Program)

def entryLinking : List Linking :=
  program.symbols.symbols.filterMap (·.linking? program.context.program)

/-- The linking records of the RESET lines without diagnostics. -/
def resetLinking : List Linking := program.lines.filterMap program.scope.linking?

variable {program} {record : Linking}

theorem mem_entryLinking : record ∈ program.entryLinking ↔
    ∃ symbol, program.symbols.get? record.entry = some symbol ∧ symbol.usage = .entry ∧
      symbol.location = some record.location ∧ record.program = program.context.program := by
  constructor
  · intro member
    obtain ⟨symbol, known, exported⟩ := List.mem_filterMap.1 member
    obtain ⟨usage, located, label, name⟩ := Symbol.linking?_eq_some_iff.1 exported
    exact ⟨symbol, label ▸ Symbol.Table.get?_of_mem known, usage, located, name⟩
  · rintro ⟨symbol, found, usage, located, name⟩
    refine List.mem_filterMap.2 ⟨symbol, Symbol.Table.mem_of_get? found, ?_⟩
    exact Symbol.linking?_eq_some_iff.2 ⟨usage, located, Symbol.Table.label_of_get? found, name⟩

theorem entryLinking_nodup : (program.entryLinking.map (·.entry)).Nodup := by
  have labels : program.symbols.symbols.map (·.label) =
      program.symbols.symbols.filterMap fun symbol => some symbol.label := by
    simp
  refine (labels ▸ program.symbols.labels_nodup).sublist (map_filterMap_sublist ?_)
  intro symbol _ record exported
  rw [(Symbol.linking?_eq_some_iff.1 exported).2.2.1]

section Placement

variable (placement : Placement program.lines program.symbols)
include placement

theorem mem_resetLinking : record ∈ program.resetLinking ↔
    ∃ line ∈ program.lines, line.diagnostics = [] ∧
      line.placed? = some (record.entry, record.location) ∧
        record.program = program.context.program := by
  refine List.mem_filterMap.trans (exists_congr fun line => and_congr_right fun member => ?_)
  exact Scope.linking?_eq_some_iff (placement.labelled line member)

theorem resetLinking_nodup : (program.resetLinking.map (·.entry)).Nodup := by
  have labels : (program.lines.filterMap Line.placed?).map (·.1) =
      program.lines.filterMap fun line => line.placed?.map (·.1) :=
    List.map_filterMap
  refine (labels ▸ placement.distinct).sublist (map_filterMap_sublist ?_)
  intro line member record exported
  have placed := ((Scope.linking?_eq_some_iff (placement.labelled line member)).1 exported).2.1
  rw [placed]
  rfl

/-- The address in a linking record is that of its label. -/
theorem located_of_linking (member : record ∈ program.entryLinking ++ program.resetLinking) :
    Pass.Locates program.symbols record.entry record.location ∧
      record.program = program.context.program := by
  rcases List.mem_append.1 member with entry | reset
  · obtain ⟨symbol, found, _, located, name⟩ := mem_entryLinking.1 entry
    exact ⟨⟨symbol, found, located⟩, name⟩
  · obtain ⟨line, known, _, placed, name⟩ := (mem_resetLinking placement).1 reset
    exact ⟨placement.located line known _ _ placed, name⟩

/-- A label is exported twice just when it is an entry that a RESET line exports too. -/
theorem linking_nodup_iff :
    ((program.entryLinking ++ program.resetLinking).map (·.entry)).Nodup ↔
      ∀ line ∈ program.lines, line.diagnostics = [] → ∀ label target,
        line.placed? = some (label, target) → ∀ symbol,
          program.symbols.get? label = some symbol → symbol.usage ≠ .entry := by
  rw [List.map_append, List.nodup_append']
  constructor
  · rintro ⟨_, _, apart⟩ line member quiet label target placed symbol found usage
    obtain ⟨again, same, located⟩ := placement.located line member label target placed
    rw [found] at same
    cases same
    let record : Linking := ⟨label, target, program.context.program⟩
    have entry : record ∈ program.entryLinking :=
      mem_entryLinking.2 ⟨symbol, found, usage, located, rfl⟩
    have reset : record ∈ program.resetLinking :=
      (mem_resetLinking placement).2 ⟨line, member, quiet, placed, rfl⟩
    exact apart (List.mem_map_of_mem entry) (List.mem_map_of_mem reset)
  · intro other
    refine ⟨entryLinking_nodup, resetLinking_nodup placement, ?_⟩
    intro label exported again
    obtain ⟨record, entry, rfl⟩ := List.mem_map.1 exported
    obtain ⟨second, reset, same⟩ := List.mem_map.1 again
    obtain ⟨symbol, found, usage, _⟩ := mem_entryLinking.1 entry
    obtain ⟨line, member, quiet, placed, _⟩ := (mem_resetLinking placement).1 reset
    rw [same] at placed
    exact other line member quiet _ _ placed symbol found usage

/-- The linking records of a label are the same. -/
theorem linking_eq_of_entry {first second : Linking}
    (one : first ∈ program.entryLinking ++ program.resetLinking)
    (other : second ∈ program.entryLinking ++ program.resetLinking)
    (same : first.entry = second.entry) : first = second := by
  obtain ⟨located, name⟩ := located_of_linking placement one
  obtain ⟨again, sameName⟩ := located_of_linking placement other
  obtain ⟨entry, location, program⟩ := first
  dsimp only at located name same
  subst same
  obtain rfl := located.eq again
  rw [name, ← sameName]

/-- A label that a RESET line put somewhere is exported if the line has no warning, or else as an
entry. -/
theorem mem_linking_iff {line : Line} (member : line ∈ program.lines) {label : Bytes}
    {target : Int} (placed : line.placed? = some (label, target)) {symbol : Symbol}
    (found : program.symbols.get? label = some symbol) :
    ⟨label, target, program.context.program⟩ ∈ program.entryLinking ++ program.resetLinking ↔
      line.diagnostics = [] ∨ symbol.usage = .entry := by
  rw [List.mem_append, mem_entryLinking, mem_resetLinking placement]
  constructor
  · -- The record may come from another RESET line only if that put the same label somewhere.
    rintro (⟨again, same, usage, _⟩ | ⟨other, known, quiet, there, _⟩)
    · rw [found] at same
      cases same
      exact Or.inr usage
    · rw [placement.eq_of_placed member known placed there]
      exact Or.inl quiet
  · rintro (quiet | usage)
    · exact Or.inr ⟨line, member, quiet, placed, rfl⟩
    · obtain ⟨again, same, located⟩ := placement.located line member label target placed
      rw [found] at same
      cases same
      exact Or.inl ⟨symbol, found, usage, located, rfl⟩

theorem count_linking_le (record : Linking) :
    (program.entryLinking ++ program.resetLinking).count record ≤ 2 := by
  have entries := List.nodup_iff_count_le_one.1 program.entryLinking_nodup.of_map record
  have resets := List.nodup_iff_count_le_one.1 (resetLinking_nodup placement).of_map record
  rw [List.count_append]
  omega

end Placement

end Program

theorem Line.Exported.linking? {line exported : Line} (change : line.Exported exported)
    (scope : Scope) : scope.linking? exported = scope.linking? line := by
  cases change with
  | same => rfl
  | remarked operand added entry =>
    have unexported : ∀ other : Line, other.directive? = some (.entry, operand) →
        scope.linking? other = none := by
      intro other entry
      simp [Scope.linking?, Emission.resetLinking?, entry]
    rw [unexported line entry]
    exact unexported _ entry

/-- The linking records of an object file are those of the entries and of the RESET lines. -/
theorem Emits.linking_eq {assembler : Assembler} {program : Program} {exported : List Line}
    {emitted : Emitted} (emits : Emits assembler program exported emitted) :
    emitted.file.linking = program.entryLinking ++ program.resetLinking := by
  obtain ⟨change, changes, same⟩ := emits.change
  rw [emits.linking, same, List.filterMap_map]
  refine congrArg (_ ++ ·) (List.filterMap_congr fun line _ => ?_)
  exact (changes line).linking? program.scope

namespace Assembler

/-- The parts of a source that was assembled, as far as its linking records go. -/
theorem linking_of_assembled {assembler : Assembler} {text : Bytes} {date : Date}
    {file : ObjectFile} (assembled : (assembler.assemble text date).outcome = .ok file) :
    ∃ program : Program, Placement program.lines program.symbols ∧
      file.linking = program.entryLinking ++ program.resetLinking ∧
      (assembler.assemble text date).program.symbols = program.symbols ∧
      (assembler.assemble text date).program.context.program = program.context.program ∧
      ∀ line target, line.resetTarget? = some target →
        (line ∈ (assembler.assemble text date).program.lines ↔ line ∈ program.lines) := by
  obtain ⟨_, emitted, success, program, rfl⟩ := assemble_ok assembled
  obtain ⟨exported, emits⟩ := assembler.emit_emits success
  obtain ⟨_, closed⟩ := assembler.parse_running text emits.running
  have placement := closed.placement (Reading.ofLines_placement _)
  obtain ⟨reported, context, _⟩ := emits.context
  rw [program]
  refine ⟨(assembler.parse text).program, placement, emits.linking_eq, emit_symbols success, ?_,
    fun line target moved => emits.mem_lines_iff placement moved⟩
  rw [context]
  rfl

/-- The labels of the linking records are different unless a RESET line without diagnostics has a
label that is an entry. No label has more than two records, and these are then the same. -/
theorem linking_distinct_iff (assembler : Assembler) (text : Bytes) (date : Date)
    (file : ObjectFile) (assembled : (assembler.assemble text date).outcome = .ok file) :
    ((file.linking.map (·.entry)).Nodup ↔
      ∀ line ∈ (assembler.assemble text date).program.lines, ∀ operand label symbol,
        line.directive? = some (.reset, operand) → line.diagnostics = [] →
        line.label = some label →
        (assembler.assemble text date).program.symbols.get? label = some symbol →
        symbol.usage ≠ .entry) ∧
      (∀ first ∈ file.linking, ∀ second ∈ file.linking,
        first.entry = second.entry → first = second) ∧
      ∀ record, file.linking.count record ≤ 2 := by
  obtain ⟨program, placement, linking, symbols, _, lines⟩ := linking_of_assembled assembled
  rw [linking, symbols, program.linking_nodup_iff placement]
  refine ⟨⟨?_, ?_⟩, fun first one second other same => ?_, program.count_linking_le placement⟩
  · intro apart line member operand label symbol reset quiet named
    have moved := Line.resetTarget?_of_quiet reset quiet
    exact apart line ((lines line _ moved).1 member) quiet label _
      (Line.placed?_eq_some_iff.2 ⟨moved, named, by simp [Line.keys, quiet]⟩) symbol
  · intro apart line member quiet label target placed symbol
    obtain ⟨moved, named, _⟩ := Line.placed?_eq_some_iff.1 placed
    obtain ⟨operand, reset, _⟩ := Line.directive?_of_resetTarget? moved
    exact apart line ((lines line _ moved).2 member) operand label symbol reset quiet named
  · exact program.linking_eq_of_entry placement one other same

/-- A RESET line that moved the location counter and defined its label has put it at its target. It
is exported just when the line has no warning or the label is an entry. -/
theorem reset_exported_iff (assembler : Assembler) (text : Bytes) (date : Date)
    (file : ObjectFile) (assembled : (assembler.assemble text date).outcome = .ok file)
    (line : Line) (member : line ∈ (assembler.assemble text date).program.lines) (target : Int)
    (moved : line.resetTarget? = some target) (own : Key.redefined ∉ line.keys) :
    ∃ label symbol, line.label = some label ∧
      (assembler.assemble text date).program.symbols.get? label = some symbol ∧
      symbol.location = some target ∧
      (⟨label, target, (assembler.assemble text date).program.context.program⟩ ∈ file.linking ↔
        line.diagnostics = [] ∨ symbol.usage = .entry) := by
  obtain ⟨program, placement, linking, symbols, name, lines⟩ := linking_of_assembled assembled
  have member := (lines line target moved).1 member
  obtain ⟨_, label, named⟩ := placement.labelled line member target moved
  have placed := Line.placed?_eq_some_iff.2 ⟨moved, named, own⟩
  obtain ⟨symbol, found, located⟩ := placement.located line member label target placed
  refine ⟨label, symbol, named, symbols ▸ found, located, ?_⟩
  rw [linking, name]
  exact program.mem_linking_iff placement member placed found

end Assembler

/-- A source with an entry and a RESET line of another label. -/
def apartSource : Bytes := ascii "PROG START 0\n ENTRY First\nFirst NOP\nSkip RESET 32\n END PROG"

theorem Assembler.linking_distinct_apartSource : ∃ file,
    (Assembler.assemble {} apartSource Date.first).outcome = .ok file ∧
      file.linking.length = 2 ∧ (file.linking.map (·.entry)).Nodup := by
  have two : (Assembler.assemble {} apartSource Date.first).outcome.toOption.any
      (·.linking.length == 2) = true := by decide +kernel
  have labels : (Assembler.assemble {} apartSource Date.first).program.lines.all (fun line =>
      line.directive?.map (·.1) != some .reset || line.label == some (ascii "Skip")) = true := by
    decide +kernel
  have usage : ((Assembler.assemble {} apartSource Date.first).program.symbols.get?
      (ascii "Skip")).map (·.usage) = some .label := by decide +kernel
  cases assembled : (Assembler.assemble {} apartSource Date.first).outcome with
  | error fault =>
    rw [assembled] at two
    cases two
  | ok file =>
    rw [assembled] at two
    refine ⟨file, rfl, beq_iff_eq.1 two,
      (Assembler.linking_distinct_iff {} apartSource Date.first file assembled).1.2 ?_⟩
    intro line member operand label symbol reset _ named found entry
    have skip : line.label = some (ascii "Skip") := by
      simpa [reset] using List.all_eq_true.1 labels line member
    rw [named] at skip
    cases skip
    rw [found, Option.map_some, entry] at usage
    cases usage

/-- A source with a RESET line whose label is an entry. -/
def twiceSource : Bytes := ascii "PROG START 0\n ENTRY Skip\nSkip RESET 32\n END PROG"

/-- A label may be exported twice. -/
theorem Assembler.linking_not_distinct : ¬ ∀ (assembler : Assembler) (text : Bytes) (date : Date)
    (file : ObjectFile), (assembler.assemble text date).outcome = .ok file →
      (file.linking.map (·.entry)).Nodup := by
  intro distinct
  have twice : (Assembler.assemble {} twiceSource Date.first).outcome.toOption.any (fun file =>
      file.linking.map (·.entry) == [ascii "Skip", ascii "Skip"]) = true := by decide +kernel
  cases assembled : (Assembler.assemble {} twiceSource Date.first).outcome with
  | error fault =>
    rw [assembled] at twice
    cases twice
  | ok file =>
    rw [assembled] at twice
    have entries : file.linking.map (·.entry) = [ascii "Skip", ascii "Skip"] := beq_iff_eq.1 twice
    have apart := distinct {} twiceSource Date.first file assembled
    rw [entries] at apart
    exact absurd apart (by decide)

/-- The RESET line without a warning is exported. -/
theorem Assembler.reset_exported_apartSource : ∃ file,
    (Assembler.assemble {} apartSource Date.first).outcome = .ok file ∧
      ⟨ascii "Skip", 32, (Assembler.assemble {} apartSource Date.first).program.context.program⟩ ∈
        file.linking := by
  have assembled :
      (Assembler.assemble {} apartSource Date.first).outcome.toOption.isSome = true := by
    decide +kernel
  have placed : (Assembler.assemble {} apartSource Date.first).program.lines.any (fun line =>
      line.resetTarget? == some 32 && line.label == some (ascii "Skip") &&
        line.diagnostics == []) = true := by decide +kernel
  obtain ⟨line, member, placed⟩ := List.any_eq_true.1 placed
  simp only [Bool.and_eq_true, beq_iff_eq] at placed
  obtain ⟨⟨moved, named⟩, quiet⟩ := placed
  cases success : (Assembler.assemble {} apartSource Date.first).outcome with
  | error fault =>
    rw [success] at assembled
    cases assembled
  | ok file =>
    obtain ⟨label, symbol, again, _, _, exported⟩ := Assembler.reset_exported_iff {} apartSource
      Date.first file success line member 32 moved (by simp [Line.keys, quiet])
    rw [named] at again
    cases again
    exact ⟨file, rfl, exported.2 (Or.inl quiet)⟩

/-- A source with a word after the operand of its RESET line. -/
def trailingSource : Bytes := ascii "PROG START 0\nSkip RESET 32 extra\n END PROG"

/-- A RESET line that took effect need not be exported. -/
theorem Assembler.reset_not_exported : ¬ ∀ (assembler : Assembler) (text : Bytes) (date : Date)
    (file : ObjectFile), (assembler.assemble text date).outcome = .ok file →
    ∀ line ∈ (assembler.assemble text date).program.lines, ∀ target,
      line.resetTarget? = some target → Key.redefined ∉ line.keys →
      ∃ label, line.label = some label ∧
        ⟨label, target, (assembler.assemble text date).program.context.program⟩ ∈
          file.linking := by
  intro exported
  have none : (Assembler.assemble {} trailingSource Date.first).outcome.toOption.any
      (·.linking.isEmpty) = true := by decide +kernel
  have placed : (Assembler.assemble {} trailingSource Date.first).program.lines.any (fun line =>
      line.resetTarget? == some 32 && line.keys == [.trailing]) = true := by decide +kernel
  obtain ⟨line, member, placed⟩ := List.any_eq_true.1 placed
  simp only [Bool.and_eq_true, beq_iff_eq] at placed
  cases assembled : (Assembler.assemble {} trailingSource Date.first).outcome with
  | error fault =>
    rw [assembled] at none
    cases none
  | ok file =>
    rw [assembled] at none
    obtain ⟨label, _, record⟩ := exported {} trailingSource Date.first file assembled line member 32
      placed.1 (by rw [placed.2]; decide)
    rw [List.isEmpty_iff.1 none] at record
    cases record

end WordAssembler

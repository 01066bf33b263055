import WordAssembler.Proofs.Linking
import WordAssembler.Proofs.Symbols

/-!
The symbols of a program over both passes. The tables that an assembly goes through are listed in
the order of its steps; of any two of them the later one has every symbol of the earlier one, with
its value. Only two changes are ever made: a label becomes an entry, and an entry that had no
address gets one.
-/

set_option autoImplicit false

namespace WordAssembler

/-! ### Symbols that stay -/

/-- What is left of a symbol at a later point of an assembly. -/
structure Symbol.Kept (earlier later : Symbol) : Prop where
  label : later.label = earlier.label
  value : later.value = earlier.value
  relocations : later.relocations = earlier.relocations
  location : later.location = earlier.location ∨
    earlier.usage = .entry ∧ earlier.location = none
  usage : later.usage = earlier.usage ∨ earlier.usage = .label ∧ later.usage = .entry

namespace Symbol.Table

/-- The later table has every symbol of the earlier one. -/
def Retains (earlier later : Table) : Prop :=
  ∀ label symbol, earlier.get? label = some symbol →
    ∃ kept, later.get? label = some kept ∧ symbol.Kept kept

/-- Every plain label of the table has an address. -/
def Labelled (table : Table) : Prop :=
  ∀ symbol ∈ table.symbols, symbol.usage = .label → symbol.isLocated = true

variable {table next : Table} {location : Int}

/-- A label that has an address cannot have got it as an entry. -/
theorem Extends.retains (extension : table.Extends next) (labelled : table.Labelled) :
    table.Retains next := by
  intro label symbol found
  obtain ⟨later, known, evolves⟩ := extension label symbol found
  refine ⟨later, known, evolves.label, evolves.value, evolves.relocations, ?_, evolves.usage⟩
  rcases evolves.location with same | ⟨absent, entry⟩
  · exact Or.inl same
  · refine Or.inr ⟨?_, absent⟩
    rcases evolves.usage with same | ⟨plain, _⟩
    · exact same.symm.trans entry
    · have located := labelled symbol (mem_of_get? found) plain
      rw [isLocated, absent] at located
      cases located

theorem Labelled.insert (labelled : table.Labelled) {symbol : Symbol}
    (located : symbol.usage = .label → symbol.isLocated = true) :
    (table.insert symbol).Labelled := by
  intro other member
  rcases mem_insert member with rfl | old
  · exact located
  · exact labelled other old

theorem Labelled.declare (labelled : table.Labelled) (declares : Declares location table next) :
    next.Labelled := by
  cases declares with
  | same => exact labelled
  | promote symbol found label => exact labelled.insert nofun
  | unlocated label usage absent other =>
    refine labelled.insert fun plain => ?_
    rcases other with rfl | rfl <;> cases plain
  | equate symbol absent usage value =>
    refine labelled.insert fun plain => ?_
    rw [usage] at plain
    cases plain

theorem Labelled.step (labelled : table.Labelled) (step : Step location table next) :
    next.Labelled := by
  cases step with
  | declare declares => exact labelled.declare declares
  | define label absent => exact labelled.insert fun _ => rfl
  | locate symbol found entry unlocated => exact labelled.insert fun _ => rfl

end Symbol.Table

theorem Pass.Advance.labelled {p q : Pass} (advance : p.Advance q)
    (labelled : p.symbols.Labelled) : q.symbols.Labelled := by
  cases advance with
  | rest _ _ _ _ symbols => exact labelled.step symbols
  | word _ _ _ _ _ _ symbols => exact labelled.step symbols
  | skip _ _ _ _ _ _ _ symbols => exact labelled.step symbols
  | begin name load _ _ _ _ _ _ _ _ _ symbols =>
    rw [symbols, Symbol.Table.extend]
    split
    · exact labelled
    · refine labelled.insert fun plain => ?_
      cases plain

/-! ### Points of a run -/

section Points

variable {α β : Type} {step : β → α → β}

theorem forall_mem_scanl (holds : β → Prop)
    (kept : ∀ state item, holds state → holds (step state item)) (items : List α) {start : β}
    (first : holds start) : ∀ state ∈ items.scanl step start, holds state := by
  induction items generalizing start with
  | nil => simpa using first
  | cons item later ih =>
    rw [List.scanl_cons]
    intro state member
    rcases List.mem_cons.1 member with rfl | after
    · exact first
    · exact ih (kept start item first) state after

variable (relates : β → β → Prop)
  (trans : ∀ {first second third}, relates first second → relates second third →
    relates first third)
  (forward : ∀ state item, relates state (step state item))
include trans forward

/-- Where every step leads forward, each state comes before the last. -/
theorem relates_foldl (refl : ∀ state, relates state state) (items : List α) (start : β) :
    ∀ state ∈ items.scanl step start, relates state (items.foldl step start) := by
  have whole : ∀ (items : List α) (start : β), relates start (items.foldl step start) := by
    intro items
    induction items with
    | nil => exact refl
    | cons item later ih => exact fun start => trans (forward start item) (ih _)
  induction items generalizing start with
  | nil => simpa using refl start
  | cons item later ih =>
    rw [List.scanl_cons]
    intro state member
    rcases List.mem_cons.1 member with rfl | after
    · exact whole (item :: later) state
    · exact ih (step start item) state after

/-- Where every step leads forward, each state comes before all later ones. -/
theorem pairwise_scanl (items : List α) (start : β) :
    (items.scanl step start).Pairwise relates := by
  induction items generalizing start with
  | nil => simp
  | cons item later ih =>
    rw [List.scanl_cons]
    refine List.pairwise_cons.2 ⟨?_, ih _⟩
    exact forall_mem_scanl (relates start)
      (fun state item earlier => trans earlier (forward state item)) later (forward start item)

end Points

namespace Reading

/-- The first pass before its first line and after each line. -/
def points (assembler : Assembler) (sources : List Bytes) : List Reading :=
  (sources.zipIdx 1).scanl (add assembler) initial

variable (assembler : Assembler) (sources : List Bytes)

theorem points_extends : (points assembler sources).Pairwise
    fun earlier later => earlier.symbols.Extends later.symbols :=
  pairwise_scanl _ .trans add_extends _ initial

theorem points_whole : ∀ reading ∈ points assembler sources,
    reading.symbols.Extends (ofLines assembler sources).symbols :=
  relates_foldl (fun earlier later : Reading => earlier.symbols.Extends later.symbols) .trans
    (@add_extends assembler) (fun reading => .refl reading.symbols) _ initial

theorem add_labelled (reading : Reading) (numbered : Bytes × Nat)
    (labelled : reading.symbols.Labelled) :
    (add assembler reading numbered).symbols.Labelled := by
  cases halted : reading.fatal.isSome with
  | true =>
    rw [add_of_halted assembler halted]
    exact labelled
  | false =>
    have advance : (reading.fresh numbered).Advance (reading.stepped assembler numbered) :=
      Pass.readLine_advance _ assembler (reading.fresh_isFresh numbered)
    rw [add_symbols (by simpa using halted)]
    exact advance.labelled labelled

theorem points_labelled :
    ∀ reading ∈ points assembler sources, reading.symbols.Labelled :=
  forall_mem_scanl (fun reading : Reading => reading.symbols.Labelled) (add_labelled assembler) _
    nofun

theorem ofLines_labelled : (ofLines assembler sources).symbols.Labelled :=
  ofLines_induction (fun reading => reading.symbols.Labelled) nofun (add_labelled assembler) sources

/-- The end of the source enters no symbol. -/
theorem finish_symbols (reading : Reading) :
    (reading.finish assembler).symbols = reading.symbols := by
  have reported : ∀ key : Key, (reading.reportLast assembler key).symbols = reading.symbols := by
    intro key
    unfold reportLast
    split <;> simp [afterPass, pass]
  unfold finish
  split
  · rfl
  · split
    · exact reported .noStart
    · split
      · rfl
      · exact reported .noEnd

end Reading

theorem Assembler.parse_symbols (assembler : Assembler) (text : Bytes) :
    (assembler.parse text).program.symbols =
      (Reading.ofLines assembler (Lines.read text).lines).symbols := by
  unfold parse
  dsimp only
  split
  · rfl
  · exact Reading.finish_symbols assembler _

namespace Emission

/-- The second pass before and after each symbol that it looks at for an export, and then before and
after each line. -/
def points (assembler : Assembler) (program : Program) : List Emission :=
  let exported := (start program).exportEntries assembler
  program.symbols.symbols.scanl (exportEntry assembler) (start program) ++
    exported.lines.scanl (add assembler) { exported with lines := [] }

/-- The second pass leaves the symbols as they are. -/
theorem points_symbols (assembler : Assembler) (program : Program) :
    ∀ emission ∈ points assembler program, emission.symbols = program.symbols := by
  have exports := exportEntries_exports assembler (start program)
  intro emission member
  rcases List.mem_append.1 member with entries | lines
  · refine forall_mem_scanl (fun emission => emission.symbols = program.symbols) ?_ _ rfl
      emission entries
    intro earlier symbol same
    exact (exportEntry_exports assembler earlier symbol).symbols.trans same
  · refine forall_mem_scanl (fun emission => emission.symbols = program.symbols) ?_ _ ?_
      emission lines
    · intro earlier line same
      exact (add_adds assembler earlier line).symbols.trans same
    · exact exports.symbols

end Emission

namespace Assembler

/-- The symbol tables of the second pass over a program, in the order of its steps. -/
def emissionTables (assembler : Assembler) (program : Program) (date : Date) :
    List Symbol.Table :=
  match assembler.emit program date with
  | .error _ => []
  | .ok emitted =>
    (Emission.points assembler program).map (·.symbols) ++ [emitted.program.symbols]

/-- The symbol tables of an assembly, in the order of its steps: before and after each line of the
source, at the end of the first pass, and at each step of the second pass if there is one. -/
def tables (assembler : Assembler) (text : Bytes) (date : Date) : List Symbol.Table :=
  let program := (assembler.parse text).program
  (Reading.points assembler (Lines.read text).lines).map (·.symbols) ++
    program.symbols :: assembler.emissionTables program date

/-- The tables from the end of the first pass on are one and the same. -/
theorem eq_of_mem_emissionTables {assembler : Assembler} {program : Program} {date : Date}
    {table : Symbol.Table}
    (member : table ∈ program.symbols :: assembler.emissionTables program date) :
    table = program.symbols := by
  rcases List.mem_cons.1 member with rfl | later
  · rfl
  · unfold emissionTables at later
    split at later
    · cases later
    · rename_i emitted success
      rcases List.mem_append.1 later with point | last
      · obtain ⟨emission, known, rfl⟩ := List.mem_map.1 point
        exact Emission.points_symbols assembler program emission known
      · rw [List.mem_singleton.1 last]
        exact emit_symbols success

/-- Of any two tables of an assembly, the later one has every symbol of the earlier one, with its
value and its count of relocatable contributions. Its location is the same unless it was an entry
without one, and its usage is the same unless it was a label and became an entry. -/
theorem tables_stable (assembler : Assembler) (text : Bytes) (date : Date) :
    (assembler.tables text date).Pairwise Symbol.Table.Retains := by
  have parsed := assembler.parse_symbols text
  have labelled := Reading.ofLines_labelled assembler (Lines.read text).lines
  refine List.pairwise_append.2 ⟨?_, ?_, ?_⟩
  · refine List.pairwise_map.2 ((Reading.points_extends assembler _).imp_of_mem ?_)
    intro earlier later member _ extension
    exact extension.retains (Reading.points_labelled assembler _ earlier member)
  · refine List.pairwise_of_forall_mem_list fun earlier first later second => ?_
    rw [eq_of_mem_emissionTables first, eq_of_mem_emissionTables second, parsed]
    exact (Symbol.Table.Extends.refl _).retains labelled
  · intro earlier first later second
    obtain ⟨reading, member, rfl⟩ := List.mem_map.1 first
    rw [eq_of_mem_emissionTables second, parsed]
    exact (Reading.points_whole assembler _ reading member).retains
      (Reading.points_labelled assembler _ reading member)

end Assembler

end WordAssembler

import WordAssembler.Proofs.Reading

/-!
Bounds of the first pass. Whatever the source, the location counter and the values of symbols are
not negative, and as long as no error was found every address is one of memory.
-/

set_option autoImplicit false

namespace WordAssembler

namespace Reading

/-- The location counter is in memory or just past it, values are not negative, and the addresses
of a program without errors are in memory. -/
structure Bounded (context : Context) (symbols : Symbol.Table) : Prop where
  start : 0 ≤ context.start
  lower : 0 ≤ context.location
  upper : context.location ≤ Word.lastAddress + 1
  values : ∀ symbol ∈ symbols.symbols, 0 ≤ symbol.value
  addresses : context.errors = 0 → ∀ symbol ∈ symbols.symbols, symbol.usage ≠ .equated →
    ∀ address, symbol.location = some address → 0 ≤ address ∧ address ≤ Word.lastAddress

/-- Addresses up to a limit stay there when a line at such an address is read. -/
theorem addresses_inside {table next : Symbol.Table} {place limit : Int}
    (step : table.Step place next) (lower : 0 ≤ place) (upper : place ≤ limit)
    (old : ∀ symbol ∈ table.symbols, symbol.usage ≠ .equated →
      ∀ address, symbol.location = some address → 0 ≤ address ∧ address ≤ limit) :
    ∀ symbol ∈ next.symbols, symbol.usage ≠ .equated →
      ∀ address, symbol.location = some address → 0 ≤ address ∧ address ≤ limit := by
  intro symbol member usage address located
  rcases step.old_address member usage located with ⟨earlier, known, other, same⟩ | rfl
  · exact old earlier known other address same
  · exact ⟨lower, upper⟩

/-- A line keeps the bounds. -/
theorem Bounded.advance {p q : Pass} (bounded : Bounded p.context p.symbols)
    (advance : p.Advance q) (errors : p.context.errors ≤ q.context.errors) :
    Bounded q.context q.symbols := by
  have start := bounded.start
  have lower := bounded.lower
  have upper := bounded.upper
  have earlier : q.context.errors = 0 → p.context.errors = 0 := by omega
  cases advance with
  | rest program counter unaddressed target symbols quiet =>
    rw [← program.start] at start
    refine ⟨start, by omega, by omega, symbols.value_nonneg lower bounded.values, ?_⟩
    intro clean symbol member usage address located
    obtain ⟨old, known, other, same⟩ :=
      (quiet (by omega)).old_address member usage located
    exact bounded.addresses (earlier clean) old known other address same
  | word program room counter addressed place target symbols label =>
    rw [← program.start] at start
    refine ⟨start, by omega, by omega, symbols.value_nonneg lower bounded.values, ?_⟩
    exact fun clean => addresses_inside symbols lower room (bounded.addresses (earlier clean))
  | skip address program forward room counter unaddressed target symbols =>
    rw [← program.start] at start
    refine ⟨start, by omega, by omega, symbols.value_nonneg (by omega) bounded.values, ?_⟩
    exact fun clean =>
      addresses_inside symbols (by omega) room (bounded.addresses (earlier clean))
  | begin name load fresh started program loaded counter below above unaddressed target symbols =>
    have either : ∀ symbol ∈ q.symbols.symbols,
        symbol = ⟨name, some load, .programName, 0, 0⟩ ∨ symbol ∈ p.symbols.symbols := by
      intro symbol member
      rw [symbols, Symbol.Table.extend] at member
      split at member
      · exact Or.inr member
      · exact Symbol.Table.mem_insert member
    refine ⟨by omega, by omega, by omega, ?_, ?_⟩
    · intro symbol member
      rcases either symbol member with rfl | old
      · exact Int.le_refl 0
      · exact bounded.values symbol old
    · intro clean symbol member usage address located
      rcases either symbol member with rfl | old
      · rw [← Option.some.inj located]
        exact ⟨below, above⟩
      · exact bounded.addresses (earlier clean) symbol old usage address located

variable (assembler : Assembler)

theorem bounded_stepped {reading : Reading} (bounded : Bounded reading.context reading.symbols)
    (numbered : Bytes × Nat) :
    Bounded (reading.stepped assembler numbered).context
      (reading.stepped assembler numbered).symbols := by
  have advance := Pass.readLine_advance _ assembler (reading.fresh_isFresh numbered)
  have follows := (reading.fresh numbered).readLine_follows assembler
  exact Bounded.advance (p := reading.fresh numbered) bounded advance follows.errors_le

/-- The bounds hold after every source. -/
theorem ofLines_bounded (lines : List Bytes) :
    Bounded (ofLines assembler lines).context (ofLines assembler lines).symbols := by
  refine ofLines_induction (fun reading => Bounded reading.context reading.symbols) ?_ ?_ lines
  · exact ⟨Int.le_refl 0, Int.le_refl 0, by decide, nofun, nofun⟩
  · intro reading numbered bounded
    cases halted : reading.fatal.isSome with
    | true =>
      rw [add_of_halted assembler halted]
      exact bounded
    | false =>
      have running : reading.fatal = none := by simpa using halted
      rw [add_context running, add_symbols running]
      exact bounded_stepped assembler bounded numbered

end Reading

end WordAssembler

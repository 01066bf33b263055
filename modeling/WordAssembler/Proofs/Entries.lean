import WordAssembler.Proofs.Linking
import WordAssembler.Proofs.Symbols
import WordAssembler.Proofs.Written

/-!
The entries of a program. A label becomes an entry at an ENTRY line that names it, and may get its
address before or after that line. An entry with an address is exported once, in the order of the
labels; one without is reported on every ENTRY line that names it.
-/

set_option autoImplicit false

namespace WordAssembler

/-! ### Lines that make entries -/

namespace Pass

variable {p : Pass} {assembler : Assembler} {operand : Operand}

/-- ENTRY makes an entry of a label that is not known or a plain label. -/
theorem applyEntry_entry (kind : operand.kind = .symbol)
    (before : ∀ symbol, p.symbols.get? operand.text = some symbol → symbol.usage = .label) :
    ∃ symbol, (p.applyEntry assembler operand).symbols.get? operand.text = some symbol ∧
      symbol.usage = .entry := by
  obtain ⟨added, remarks⟩ := ignoreLabel_remarks p assembler
  have same : (p.ignoreLabel assembler).symbols = p.symbols := remarks.symbols
  unfold applyEntry
  dsimp only
  rw [if_pos kind, same]
  split
  · rename_i absent
    rw [Symbol.Table.extend_of_absent absent]
    exact ⟨_, Symbol.Table.get?_insert_self _ ⟨operand.text, none, .entry, 0, 0⟩, rfl⟩
  · rename_i symbol found
    have named := Symbol.Table.label_of_get? found
    split
    · refine ⟨{ symbol with usage := .entry }, ?_, rfl⟩
      rw [Symbol.Table.get?_insert, if_pos named]
    · rename_i usage
      rw [before symbol found] at usage
      cases usage
    · rename_i other _
      exact absurd (before symbol found) other

variable (fresh : p.Fresh) (said : assembler.directive? p.line.source = some (.entry, operand))
  (running : (p.readLine assembler).fatal = none)
include fresh said running

theorem readLine_entry (kind : operand.kind = .symbol)
    (before : ∀ symbol, p.symbols.get? operand.text = some symbol → symbol.usage = .label) :
    ∃ symbol, (p.readLine assembler).symbols.get? operand.text = some symbol ∧
      symbol.usage = .entry := by
  obtain ⟨stated, symbols, _, _, applied⟩ := asDirective_applies fresh said
  rw [readLine_of_written said running, (finishLine_settles _ assembler _).symbols, applied]
  rw [← symbols] at before
  exact applyEntry_entry kind before

end Pass

namespace Reading

/-- A line makes a label an entry: it is an ENTRY directive that names the label, and the label was
not known before or a plain one. -/
structure MakesEntry (assembler : Assembler) (sources : List Bytes) (k : Nat) (label : Bytes) :
    Prop where
  said : ∃ operand, assembler.directive? (sourceLine sources k) = some (.entry, operand) ∧
    operand.kind = .symbol ∧ operand.text = label
  before : ∀ symbol, (ofLines assembler (sources.take k)).symbols.get? label = some symbol →
    symbol.usage = .label

/-- A line gives a label its address: the label had none before. -/
structure GivesAddress (assembler : Assembler) (sources : List Bytes) (j : Nat) (label : Bytes)
    (address : Int) : Prop where
  before : ∀ other, ¬ Pass.Locates (ofLines assembler (sources.take j)).symbols label other
  after : Pass.Locates (ofLines assembler (sources.take (j + 1))).symbols label address

variable {assembler : Assembler} {sources : List Bytes} {j k : Nat} {label source : Bytes}
  {address : Int} {symbol : Symbol}

theorem MakesEntry.entry (makes : MakesEntry assembler sources k label)
    (running : (ofLines assembler sources).fatal = none) :
    ∃ symbol, (ofLines assembler sources).symbols.get? label = some symbol ∧
      symbol.usage = .entry := by
  obtain ⟨⟨operand, said, kind, rfl⟩, before⟩ := makes
  obtain ⟨source, here⟩ := Assembler.getElem?_of_directive? said
  rw [sourceLine_of_getElem? here] at said
  have fresh := (ofLines assembler (sources.take k)).fresh_isFresh (source, k + 1)
  obtain ⟨symbol, found, entry⟩ :=
    Pass.readLine_entry fresh said (stepped_running here running) kind before
  have there : (ofLines assembler (sources.take (k + 1))).symbols.get? operand.text =
      some symbol := by
    rw [ofLines_take_succ here, add_symbols (running_take running k)]
    exact found
  obtain ⟨last, known, evolves⟩ := extends_whole sources (k + 1) _ symbol there
  exact ⟨last, known, evolves.entry entry⟩

theorem GivesAddress.located (gives : GivesAddress assembler sources j label address) :
    Pass.Locates (ofLines assembler sources).symbols label address := by
  obtain ⟨symbol, found, located⟩ := gives.after
  obtain ⟨later, known, evolves⟩ := extends_whole sources (j + 1) label symbol found
  exact ⟨later, known, evolves.located located⟩

end Reading

/-! ### Reports -/

namespace Emission

variable {assembler : Assembler} {emission before after : Emission} {label : Bytes}
  {symbol : Symbol}

/-- Every ENTRY line that names a label reports that it has no address. -/
def Reported (label : Bytes) (lines : List Line) : Prop :=
  ∀ line ∈ lines, namesEntry label line = true → Key.entryUndefined ∈ line.keys

theorem namesEntry_exported {line exported : Line} (change : line.Exported exported) :
    namesEntry label exported = namesEntry label line := by
  unfold namesEntry
  rw [change.directive?]

theorem Exports.reported {visited : List Symbol} (exports : Exports before after visited)
    (reported : Reported label before.lines) : Reported label after.lines := by
  obtain ⟨change, exported, lines⟩ := exports.lines
  intro line member names
  rw [lines] at member
  obtain ⟨earlier, known, rfl⟩ := List.mem_map.1 member
  rw [namesEntry_exported (exported earlier)] at names
  have keeps := (exported earlier).keeps
  exact Pass.keys_mono keeps.diagnostics (reported earlier known names)

end Emission

/-! ### Exports -/

namespace Program

variable {program : Program} {assembler : Assembler} {label : Bytes} {symbol : Symbol}

/-- The linking records that the second pass makes of the symbols. -/
def exports (assembler : Assembler) (program : Program) : List Linking :=
  ((Emission.start program).exportEntries assembler).linking.reverse

end Program

namespace Assembler

variable {assembler : Assembler} {text : Bytes} {date : Date} {emitted : Emitted}

end Assembler

end WordAssembler

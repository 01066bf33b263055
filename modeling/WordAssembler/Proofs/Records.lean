import WordAssembler.Proofs.Modifications

/-!
What the object file and the listing say of the same program. Each line with a word has one text
record, each line whose word is left to the linker one modification, and each row of the listing
shows what the records hold. This is so of every program that can be emitted, however its lines
came to be what they are.
-/

set_option autoImplicit false

namespace WordAssembler

namespace Scope

variable {scope : Scope} {assembler : Assembler} {line : Line} {modification : Modification}

/-- The modification of a line is of its final word. -/
theorem modification?_word (found : scope.modification? line = some modification) :
    modification.word = (scope.lineAfter assembler line).word := by
  have addressed := addressed_of_modification? found
  rw [modification?, if_pos addressed] at found
  rw [lineAfter, if_pos addressed]
  cases resolved : scope.resolution line with
  | settled word flag =>
    rw [resolved] at found
    cases found
  | adjusted word adjustments =>
    rw [resolved] at found
    cases found
    rfl
  | faulty key =>
    rw [resolved] at found
    cases found

/-- The text record of a line beside its modification. -/
theorem record_of_modification? (found : scope.modification? line = some modification) :
    (scope.record assembler line).location = modification.location ∧
      (scope.record assembler line).word = modification.word ∧
      (scope.record assembler line).adjustments = modification.size := by
  refine ⟨?_, (modification?_word found).symm, ?_⟩
  · rw [modification?_location scope found]
    exact (scope.lineAfter_keeps assembler line).location
  · rw [record, found]
    rfl

/-- The number of adjustments in the text record of a line: few, and none unless the linker adjusts
the word. -/
theorem record_adjustments (addressed : line.addressed = true) :
    (scope.record assembler line).adjustments ≤ mostAdjustments ∧
      ((scope.record assembler line).flag ≠ .modify →
        (scope.record assembler line).adjustments = 0) := by
  have flag : (scope.record assembler line).flag = .modify ↔
      (scope.modification? line).isSome = true := scope.lineAfter_flag assembler addressed
  cases found : scope.modification? line with
  | none =>
    have none : (scope.record assembler line).adjustments = 0 := by
      rw [record, found]
      rfl
    exact ⟨none ▸ Int.natCast_nonneg _, fun _ => none⟩
  | some modification =>
    rw [(record_of_modification? found).2.2]
    refine ⟨Int.ofNat_le.2 (modification?_size found).1, fun other => ?_⟩
    exact absurd (flag.2 (Option.isSome_of_eq_some found)) other

end Scope

namespace Emits

variable {assembler : Assembler} {program : Program} {exported : List Line} {emitted : Emitted}
  (emits : Emits assembler program exported emitted)
include emits

/-- The text records whose words the linker adjusts, beside the modifications. -/
theorem forall₂_records : List.Forall₂ (fun record modification =>
      record.location = modification.location ∧ record.word = modification.word ∧
        record.adjustments = modification.size)
    (emitted.file.text.filter (·.flag == .modify)) emitted.file.modifications := by
  have given : exported.filterMap program.scope.modification? =
      (exported.filter (·.addressed)).filterMap program.scope.modification? := by
    rw [List.filterMap_filter]
    refine List.filterMap_congr fun line _ => ?_
    cases addressed : line.addressed with
    | false => simp [Scope.modification?, addressed]
    | true => rfl
  rw [emits.text, emits.modifications, given]
  apply forall₂_filterMap
  · intro line member
    rw [Bool.eq_iff_iff, beq_iff_eq]
    exact program.scope.lineAfter_flag assembler (List.mem_filter.1 member).2
  · exact fun line _ modification found => Scope.record_of_modification? found

theorem record_adjustments : ∀ record ∈ emitted.file.text,
    record.adjustments ≤ mostAdjustments ∧ (record.flag ≠ .modify → record.adjustments = 0) := by
  rw [emits.text]
  intro record member
  obtain ⟨line, chosen, rfl⟩ := List.mem_map.1 member
  exact Scope.record_adjustments (List.mem_filter.1 chosen).2

end Emits

/-- The header counts the records of its file. -/
theorem Assembler.emit_counts {assembler : Assembler} {program : Program} {date : Date}
    {emitted : Emitted} (success : assembler.emit program date = .ok emitted) :
    emitted.file.header.linkingCount = emitted.file.linking.length ∧
      emitted.file.header.textCount = emitted.file.text.length ∧
      emitted.file.header.modificationCount = emitted.file.modifications.length := by
  unfold emit at success
  split at success
  · cases success
  · split at success
    · cases success
    · cases success
      simp [Emission.file, Emission.header]

/-- The rows of a listing with a word are those of the lines with a word. -/
theorem Program.rows_addressed (program : Program) (width : Int) :
    (program.listing width).rows.filter (·.addressed) =
      (program.lines.filter (·.addressed)).map Line.row := by
  rw [listing, List.filter_map]
  rfl

/-- The object file, the lines of the emitted program and its listing agree. The lines are those of
the program before, in their order. The text records are one for each line with a word, with its
location, word and flag, and the modifications one for each of them that has the flag for it. A text
record has as many adjustments as its modification, fifteen at most, and none without one. The
header counts the records of each kind, and the rows of the listing with a word show the text
records. -/
theorem Assembler.records_agree (assembler : Assembler) (program : Program) (date : Date)
    (emitted : Emitted) (success : assembler.emit program date = .ok emitted) :
    List.Forall₂ Line.Keeps program.lines emitted.program.lines ∧
      List.Forall₂ (fun line record => record.location = line.location ∧
          record.word = line.word ∧ record.flag = line.flag)
        (emitted.program.lines.filter (·.addressed)) emitted.file.text ∧
      List.Forall₂ (fun line modification => modification.location = line.location ∧
          modification.word = line.word)
        (emitted.program.lines.filter fun line => line.addressed && line.flag == .modify)
        emitted.file.modifications ∧
      List.Forall₂ (fun record modification => record.location = modification.location ∧
          record.word = modification.word ∧ record.adjustments = modification.size)
        (emitted.file.text.filter (·.flag == .modify)) emitted.file.modifications ∧
      (∀ record ∈ emitted.file.text, record.adjustments ≤ mostAdjustments ∧
        (record.flag ≠ .modify → record.adjustments = 0)) ∧
      (emitted.file.header.linkingCount = emitted.file.linking.length ∧
        emitted.file.header.textCount = emitted.file.text.length ∧
        emitted.file.header.modificationCount = emitted.file.modifications.length) ∧
      ∀ width, List.Forall₂ (fun row record => row.location = record.location ∧
          row.word = record.word ∧ row.flag = record.flag)
        ((emitted.program.listing width).rows.filter (·.addressed)) emitted.file.text := by
  have emits := emit_exported success
  refine ⟨emits.keeps, ?_, ?_, emits.forall₂_records, emits.record_adjustments,
    emit_counts success, fun width => ?_⟩
  · exact emits.forall₂_text fun line _ _ => ⟨rfl, rfl, rfl⟩
  · refine emits.forall₂_modifications fun line _ _ modification found => ?_
    rw [(program.scope.lineAfter_keeps assembler line).location]
    exact ⟨program.scope.modification?_location found, Scope.modification?_word found⟩
  · rw [Program.rows_addressed, List.forall₂_map_left_iff]
    exact emits.forall₂_text fun line _ _ => ⟨rfl, rfl, rfl⟩

/-- A source with a word for the linker, one that moves with the program, and one that stays. -/
def mixedSource : Bytes :=
  ascii "PROG START 0\n EXTRN Away\n CNTL GOTO Away\nHere CNTL GOTO Here\n NOP\n END PROG"

/-- The program of `mixedSource` with the word that moves given up. -/
def mixedProgram : Program := (Assembler.parse {} mixedSource).program.invalidateLine 3

theorem Assembler.records_agree_mixedProgram : ∃ emitted,
    Assembler.emit {} mixedProgram Date.first = .ok emitted ∧
      emitted.file.text.map (·.flag) = [.modify, .absolute, .absolute] ∧
      List.Forall₂ (fun record modification => record.location = modification.location ∧
          record.word = modification.word ∧ record.adjustments = modification.size)
        (emitted.file.text.filter (·.flag == .modify)) emitted.file.modifications ∧
      List.Forall₂ (fun row record => row.location = record.location ∧
          row.word = record.word ∧ row.flag = record.flag)
        ((emitted.program.listing 0).rows.filter (·.addressed)) emitted.file.text := by
  have found : (Assembler.emit {} mixedProgram Date.first).toOption.any (fun emitted =>
      emitted.file.text.map (·.flag) == [.modify, .absolute, .absolute]) = true := by
    decide +kernel
  cases success : Assembler.emit {} mixedProgram Date.first with
  | error fault =>
    rw [success] at found
    cases found
  | ok emitted =>
    rw [success] at found
    obtain ⟨_, _, _, modified, _, _, listed⟩ :=
      Assembler.records_agree {} mixedProgram Date.first emitted success
    exact ⟨emitted, rfl, beq_iff_eq.1 found, modified, listed 0⟩

end WordAssembler

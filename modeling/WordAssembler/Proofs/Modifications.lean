import WordAssembler.Proofs.Equates
import WordAssembler.Proofs.Patches

/-!
Modifications and their adjustments. A word that is left to the linker has some adjustment, and its
text record says how many there are. The exception is an instruction whose equated operand has a
count of relocatable contributions that has run over: the count is then negative, and the word is
left to the linker with no adjustment at all. It takes more than thirty-one equates to get there.
-/

set_option autoImplicit false

namespace WordAssembler

open Expression

/-- The line is an instruction whose operand has a count of contributions that is below zero. -/
def Line.miscounts (line : Line) : Bool :=
  match line.statement with
  | some (.instruction said) => said.equated.isSome && decide (said.relocations < 0)
  | _ => false

/-- An operand expression is adjusted for its `*`. -/
theorem Expression.Evaluator.operand_adjusts {ev : Evaluator} {expression : Bytes}
    {location value : Int} {adjustments : List Adjustment}
    (found : ev.operand expression location = .ok (value, adjustments)) : adjustments ≠ [] := by
  unfold operand at found
  split at found
  · cases found
    exact List.cons_ne_nil _ _
  · split at found
    · cases found
    · split at found
      · split at found
        · unfold operandAfterStar at found
          dsimp only at found
          repeat' split at found
          all_goals cases found
          exact List.cons_ne_nil _ _
        · cases found
      · cases found

/-! ### Resolved lines -/

namespace Scope

variable {scope : Scope} {assembler : Assembler} {line : Line}

/-- A count below zero leaves the word to the linker without adjustments. -/
theorem resolution_of_miscounts (miscounts : line.miscounts = true) :
    scope.resolution line = .adjusted line.word [] := by
  unfold Line.miscounts at miscounts
  split at miscounts
  · rename_i said stated
    obtain ⟨equated, negative⟩ := Bool.and_eq_true_iff.1 miscounts
    have below : said.relocations < 0 := of_decide_eq_true negative
    have none : said.relocations.toNat = 0 := by omega
    rw [resolution, stated]
    dsimp only
    rw [resolveInstruction, if_pos equated, resolveEquated, if_neg (by omega), if_neg (by omega),
      none]
    rfl
  · cases miscounts

variable {word after : Word} {location : Int} {adjustments : List Adjustment}

theorem resolveEquated_adjusts {relocations : Int} (counted : 0 ≤ relocations)
    (resolved : scope.resolveEquated word relocations = .adjusted after adjustments) :
    adjustments ≠ [] := by
  unfold resolveEquated at resolved
  split at resolved
  · cases resolved
  · split at resolved
    · cases resolved
    · cases resolved
      rw [ne_eq, List.replicate_eq_nil_iff]
      omega

theorem resolveSymbol_adjusts {label : Bytes}
    (resolved : scope.resolveSymbol word label = .adjusted after adjustments) :
    adjustments ≠ [] := by
  unfold resolveSymbol at resolved
  repeat' split at resolved
  all_goals cases resolved
  exact List.cons_ne_nil _ _

theorem resolveExpression_adjusts {expression : Bytes}
    (resolved : scope.resolveExpression word location expression = .adjusted after adjustments) :
    adjustments ≠ [] := by
  unfold resolveExpression at resolved
  split at resolved
  · cases resolved
  · rename_i found
    split at resolved
    · cases resolved
      exact Evaluator.operand_adjusts found
    · cases resolved

theorem resolveConstant_adjusts {directive : Directive} {expression : Bytes}
    (resolved : scope.resolveConstant directive location expression =
      .adjusted after adjustments) : adjustments ≠ [] := by
  unfold resolveConstant at resolved
  split at resolved
  · cases resolved
  · split at resolved
    · cases resolved
    · dsimp only at resolved
      split at resolved
      · cases resolved
      · rename_i adjusted
        cases resolved
        exact fun empty => adjusted (List.isEmpty_iff.2 empty)

theorem resolveDirective_adjusts {directive : Directive} {operand : Operand}
    (resolved : scope.resolveDirective word location directive operand =
      .adjusted after adjustments) : adjustments ≠ [] := by
  unfold resolveDirective at resolved
  repeat' split at resolved
  all_goals first | exact resolveConstant_adjusts resolved | cases resolved

/-- A word that is left to the linker has an adjustment, unless its line has a count below zero. -/
theorem adjustments_ne_nil
    (resolved : scope.resolution line = .adjusted word adjustments)
    (counted : line.miscounts = false) : adjustments ≠ [] := by
  unfold resolution at resolved
  unfold Line.miscounts at counted
  cases stated : line.statement with
  | none =>
    rw [stated] at resolved
    cases resolved
  | some statement =>
    rw [stated] at resolved counted
    cases statement with
    | instruction said =>
      dsimp only [resolveInstruction] at resolved counted
      split at resolved
      · rename_i equated
        have nonneg : 0 ≤ said.relocations := by simpa [equated] using counted
        exact resolveEquated_adjusts nonneg resolved
      · split at resolved
        · exact resolveSymbol_adjusts resolved
        · exact resolveExpression_adjusts resolved
        · cases resolved
    | directive directive operand => exact resolveDirective_adjusts resolved
    | invalidated => cases resolved

/-- Resolution leaves a count as it is. -/
theorem lineAfter_miscounts : (scope.lineAfter assembler line).miscounts = line.miscounts := by
  unfold lineAfter
  split
  · cases resolved : scope.resolution line with
    | settled word flag => rfl
    | adjusted word adjustments => rfl
    | faulty key =>
      cases counted : line.miscounts with
      | false => rfl
      | true =>
        rw [resolution_of_miscounts counted] at resolved
        cases resolved
  · rfl

/-- A modification has few adjustments, and some unless its line has a count below zero. -/
theorem modification?_size {modification : Modification}
    (found : scope.modification? line = some modification) :
    modification.size ≤ mostAdjustments ∧ (1 ≤ modification.size ↔ line.miscounts = false) := by
  rw [modification?, if_pos (addressed_of_modification? found)] at found
  cases resolved : scope.resolution line with
  | settled word flag =>
    rw [resolved] at found
    cases found
  | faulty key =>
    rw [resolved] at found
    cases found
  | adjusted word adjustments =>
    rw [resolved] at found
    cases found
    have size : (Modification.mk line.location word (adjustments.take mostAdjustments)
        scope.evaluator.program).size = min mostAdjustments adjustments.length :=
      List.length_take
    refine ⟨size ▸ Nat.min_le_left _ _, ?_⟩
    rw [size]
    cases counted : line.miscounts with
    | false =>
      have adjusted := List.length_pos_iff.2 (adjustments_ne_nil resolved counted)
      have room : 1 ≤ mostAdjustments := by decide
      exact ⟨fun _ => rfl, fun _ => Nat.le_min.2 ⟨room, adjusted⟩⟩
    | true =>
      rw [resolution_of_miscounts counted] at resolved
      cases resolved
      simp

/-- The flag and the number of adjustments of a text record agree, unless its line has a count below
zero. -/
theorem record_modify_iff (addressed : line.addressed = true) :
    ((scope.record assembler line).flag = .modify ↔
      (scope.record assembler line).adjustments ≠ 0) ↔ line.miscounts = false := by
  have flag : (scope.record assembler line).flag = .modify ↔
      (scope.modification? line).isSome = true := scope.lineAfter_flag assembler addressed
  have adjustments : (scope.record assembler line).adjustments =
      (((scope.modification? line).map Modification.size).getD 0 : Nat) := rfl
  rw [flag, adjustments]
  cases found : scope.modification? line with
  | none =>
    cases counted : line.miscounts with
    | false => simp
    | true =>
      rw [modification?, if_pos addressed, resolution_of_miscounts counted] at found
      cases found
  | some modification =>
    have size := (modification?_size found).2
    rw [← size]
    simp [Nat.one_le_iff_ne_zero]

end Scope

/-! ### Object files -/

/-- The counts of a source with few equates are not below zero. -/
theorem Assembler.counted_of_few {assembler : Assembler} {text : Bytes}
    (running : (assembler.parse text).program.context.fatal = false)
    (few : assembler.equateCount (Lines.read text).lines ≤ Reading.mostEquates) :
    ∀ line ∈ (assembler.parse text).program.lines, line.addressed = true →
      line.miscounts = false := by
  obtain ⟨_, closed⟩ := assembler.parse_running text running
  have counts := Reading.ofLines_counts assembler few
  intro line member addressed
  unfold Line.miscounts
  split
  · rename_i said stated
    have encodes := closed.encodes (Reading.ofLines_encodes _) line member addressed said stated
    cases named : said.equated with
    | none => rfl
    | some label =>
      obtain ⟨_, _, symbol, found, _, _, same⟩ := encodes.substituted label named
      rw [closed.symbols] at found
      have nonneg := (counts label symbol found).1
      rw [same] at nonneg
      simpa using nonneg
  · rfl

/-- Every modification has fifteen adjustments at most. Line by line, a modification has an
adjustment, and the flag of a text record says that it has some, unless the line has a count of
contributions below zero. No line of a source with few equates has. -/
theorem Assembler.modifications_adjust_iff (assembler : Assembler) (text : Bytes) (date : Date)
    (file : ObjectFile) (success : (assembler.assemble text date).outcome = .ok file) :
    (∀ modification ∈ file.modifications, modification.size ≤ mostAdjustments) ∧
      List.Forall₂ (fun line modification => 1 ≤ modification.size ↔ line.miscounts = false)
        ((assembler.assemble text date).program.lines.filter fun line =>
          line.addressed && line.flag == .modify) file.modifications ∧
      List.Forall₂ (fun line record =>
          (record.flag = .modify ↔ record.adjustments ≠ 0) ↔ line.miscounts = false)
        ((assembler.assemble text date).program.lines.filter (·.addressed)) file.text ∧
      (assembler.equateCount (Lines.read text).lines ≤ Reading.mostEquates →
        (∀ modification ∈ file.modifications, 1 ≤ modification.size) ∧
          ∀ record ∈ file.text, record.flag = .modify ↔ record.adjustments ≠ 0) := by
  obtain ⟨_, emitted, emission, same, rfl⟩ := assemble_ok success
  have emits := emit_exported emission
  have worded := assembler.parse_worded text emits.running
  rw [same]
  refine ⟨?_, ?_, ?_, fun few => ?_⟩
  · rw [emits.modifications]
    intro modification member
    obtain ⟨line, _, found⟩ := List.mem_filterMap.1 member
    exact (Scope.modification?_size found).1
  · refine emits.forall₂_modifications fun line _ _ modification found => ?_
    rw [Scope.lineAfter_miscounts]
    exact (Scope.modification?_size found).2
  · refine emits.forall₂_text fun line _ addressed => ?_
    rw [Scope.lineAfter_miscounts]
    exact Scope.record_modify_iff addressed
  · have counted := counted_of_few emits.running few
    refine ⟨?_, ?_⟩
    · rw [emits.modifications]
      intro modification member
      obtain ⟨line, exported, found⟩ := List.mem_filterMap.1 member
      have addressed := Scope.addressed_of_modification? found
      exact (Scope.modification?_size found).2.2
        (counted line (emits.mem_of_exported worded line exported addressed) addressed)
    · rw [emits.text]
      intro record member
      obtain ⟨line, chosen, rfl⟩ := List.mem_map.1 member
      obtain ⟨exported, addressed⟩ := List.mem_filter.1 chosen
      exact (Scope.record_modify_iff addressed).2
        (counted line (emits.mem_of_exported worded line exported addressed) addressed)

/-- A source with a word that four adjustments are added to. -/
def fourSource : Bytes :=
  ascii "PROG START 0\nOne EQU *\nFour EQUE One+One+One+One\n MOPER ADD,Four\n END PROG"

theorem Assembler.modifications_adjust_fourSource : ∃ file,
    (Assembler.assemble {} fourSource Date.first).outcome = .ok file ∧
      file.modifications.length = 1 ∧
      (∀ modification ∈ file.modifications,
        1 ≤ modification.size ∧ modification.size ≤ mostAdjustments) ∧
      ∀ record ∈ file.text, record.flag = .modify ↔ record.adjustments ≠ 0 := by
  have found : (Assembler.assemble {} fourSource Date.first).outcome.toOption.any
      (fun file => file.modifications.length == 1) = true := by decide +kernel
  have few : Assembler.equateCount {} (Lines.read fourSource).lines ≤ Reading.mostEquates := by
    decide +kernel
  cases success : (Assembler.assemble {} fourSource Date.first).outcome with
  | error fault =>
    rw [success] at found
    cases found
  | ok file =>
    rw [success] at found
    obtain ⟨most, _, _, counted⟩ := Assembler.modifications_adjust_iff {} fourSource Date.first file
      success
    obtain ⟨least, agree⟩ := counted few
    exact ⟨file, rfl, of_decide_eq_true found,
      fun modification member => ⟨least modification member, most modification member⟩, agree⟩

/-- The label of a power of four. -/
def powerLabel (power : Nat) : Bytes := ascii "A" ++ Numeral.decimal power

/-- Equates a label to four times the one before. -/
def quadruple (power : Nat) : Bytes :=
  powerLabel (power + 1) ++ ascii " EQUE " ++
    [byte '+'].intercalate (List.replicate 4 (powerLabel power)) ++ ascii "\n"

/-- A source with an operand to which the load address contributes too often to be counted. -/
def overflowSource : Bytes :=
  ascii "PROG START 0\nA0 NOP\n" ++ (List.range 31).flatMap quadruple ++
    ascii "A32 EQU A31+A31\n STACK PUSH A32\n END PROG"

/-- A modification may have no adjustment, and its text record the flag without a count. -/
theorem Assembler.modifications_not_adjust : ¬ ∀ (assembler : Assembler) (text : Bytes)
    (date : Date) (file : ObjectFile), (assembler.assemble text date).outcome = .ok file →
    (∀ modification ∈ file.modifications,
      1 ≤ modification.size ∧ modification.size ≤ mostAdjustments) ∧
    ∀ record ∈ file.text, record.flag = .modify ↔ record.adjustments ≠ 0 := by
  intro adjust
  have empty : (Assembler.assemble {} overflowSource Date.first).outcome.toOption.any
      (fun file => file.modifications.map Modification.size == [0]) = true := by decide +kernel
  cases success : (Assembler.assemble {} overflowSource Date.first).outcome with
  | error fault =>
    rw [success] at empty
    cases empty
  | ok file =>
    rw [success] at empty
    have sizes : file.modifications.map Modification.size = [0] := beq_iff_eq.1 empty
    obtain ⟨modification, member, none⟩ := List.mem_map.1 (sizes ▸ List.mem_singleton_self 0)
    have one := ((adjust {} overflowSource Date.first file success).1 modification member).1
    omega

end WordAssembler

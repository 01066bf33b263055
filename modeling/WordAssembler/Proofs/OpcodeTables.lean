import Mathlib.Data.List.Pairwise
import WordAssembler.Proofs.EncodedWords
import WordAssembler.Proofs.WhiteSpace

/-!
What an opcode table text says. A line is blank or gives an instruction: three words, which are the
name of a group, a function and five binary digits. A text is a table if all its lines are so and no
two give the same instruction, and the table then says of each instruction, group and bitcode what
the lines say. Otherwise there is a first line that breaks a rule, and that is the one reported.
-/

set_option autoImplicit false

namespace WordAssembler

namespace Bitcode

def IsDigits (text : Bytes) : Prop := text.length = 5 ∧ ∀ b ∈ text, b = byte '0' ∨ b = byte '1'

theorem bit?_eq_some_iff {b : UInt8} {bit : Bool} :
    bit? b = some bit ↔ b = byte (if bit then '1' else '0') := by
  unfold bit?
  cases bit with
  | false =>
    by_cases zero : b = byte '0'
    · simp [zero]
    · by_cases one : b = byte '1'
      · simp [one]
      · simp [zero, one]
  | true =>
    by_cases zero : b = byte '0'
    · simp [zero]
      decide
    · by_cases one : b = byte '1'
      · simp [one]
        decide
      · simp [zero, one]

/-- A bitcode is read from its own digits only. -/
theorem parse?_eq_some_iff {text : Bytes} {bitcode : Bitcode} :
    parse? text = some bitcode ↔ text = bitcode.digits := by
  constructor
  · intro read
    unfold parse? at read
    split at read
    · rename_i a b c d e
      simp only [Option.bind_eq_bind, Option.pure_def, Option.bind_eq_some_iff,
        bit?_eq_some_iff] at read
      obtain ⟨a, rfl, b, rfl, c, rfl, d, rfl, e, rfl, value⟩ := read
      rw [← Option.some.inj value]
      clear value
      revert a b c d e
      decide +kernel
    · cases read
  · rintro rfl
    exact parse?_digits bitcode

theorem isDigits_iff {text : Bytes} :
    IsDigits text ↔ ∃ bitcode : Bitcode, text = bitcode.digits := by
  constructor
  · rintro ⟨five, binary⟩
    have known : ∀ b ∈ text, ∃ bit, bit? b = some bit := by
      intro b member
      rcases binary b member with rfl | rfl
      · exact ⟨false, rfl⟩
      · exact ⟨true, by decide⟩
    match text, five with
    | [a, b, c, d, e], _ =>
      simp only [List.forall_mem_cons] at known
      obtain ⟨⟨_, first⟩, ⟨_, second⟩, ⟨_, third⟩, ⟨_, fourth⟩, ⟨_, fifth⟩, _⟩ := known
      have read : ∃ bitcode, parse? [a, b, c, d, e] = some bitcode := by
        simp only [parse?, first, second, third, fourth, fifth]
        exact ⟨_, rfl⟩
      obtain ⟨bitcode, read⟩ := read
      exact ⟨bitcode, parse?_eq_some_iff.1 read⟩
  · rintro ⟨bitcode, rfl⟩
    have checked : ∀ bitcode : Bitcode, bitcode.digits.length = 5 ∧
        bitcode.digits.all (fun b => b == byte '0' || b == byte '1') = true := by decide +kernel
    obtain ⟨five, binary⟩ := checked bitcode
    exact ⟨five, by simpa using binary⟩

end Bitcode

/-- A group is read from its own name only, in any case. -/
theorem Group.parse?_eq_some_iff {text : Bytes} {group : Group} :
    parse? text = some group ↔ group ∈ all ∧ upper text = group.name := by
  have distinct : (all.map name).Nodup := by decide
  rw [parse?, find?_key_eq_some_iff distinct, eq_comm]

namespace Opcodes

/-! ### A line -/

/-- The line gives the entry: three words, the name of its group and its function, both in any case,
and the digits of its bitcode. -/
def Gives (line : Bytes) (entry : Opcode) : Prop :=
  ∃ group function, line.Words [group, function, entry.bitcode.digits] ∧
    entry.group ∈ Group.all ∧ upper group = entry.group.name ∧ upper function = entry.function

def NamesGroup (word : Bytes) : Prop := ∃ group ∈ Group.all, upper word = group.name

/-- The line is three words, of which the first names a group and the last is five binary digits. -/
def IsInstruction (line : Bytes) : Prop :=
  ∃ group function digits, line.Words [group, function, digits] ∧ NamesGroup group ∧
    Bitcode.IsDigits digits

/-- The two lines give an entry for the same function of the same group. -/
def Repeats (earlier line : Bytes) : Prop :=
  ∃ a b, Gives earlier a ∧ Gives line b ∧ a.group = b.group ∧ a.function = b.function

theorem isInstruction_iff {line : Bytes} : IsInstruction line ↔ ∃ entry, Gives line entry := by
  constructor
  · rintro ⟨group, function, digits, words, ⟨known, listed, name⟩, binary⟩
    obtain ⟨bitcode, rfl⟩ := Bitcode.isDigits_iff.1 binary
    exact ⟨⟨known, upper function, bitcode⟩, group, function, words, listed, name, rfl⟩
  · rintro ⟨entry, group, function, words, listed, name, _⟩
    exact ⟨group, function, _, words, ⟨entry.group, listed, name⟩,
      Bitcode.isDigits_iff.2 ⟨entry.bitcode, rfl⟩⟩

theorem parse?_eq_none_iff {word : Bytes} : Group.parse? word = none ↔ ¬NamesGroup word := by
  rw [Option.eq_none_iff_forall_ne_some, NamesGroup]
  simp only [ne_eq, Group.parse?_eq_some_iff, not_exists]

variable {line : Bytes}

theorem readLine_eq_none_iff : readLine line = .ok none ↔ line.IsBlank := by
  rw [← Bytes.words_nil_iff, ← Bytes.fields_eq_iff]
  unfold readLine
  split
  · rename_i blank
    simp [blank]
  · rename_i words
    rw [words]
    split
    · simp
    · split
      · simp
      · simp
  · rename_i some _
    simpa using some

/-- A line is read as the entry that it gives. -/
theorem readLine_eq_some_iff {entry : Opcode} :
    readLine line = .ok (some entry) ↔ Gives line entry := by
  constructor
  · intro read
    unfold readLine at read
    split at read
    · cases read
    · rename_i group function digits words
      split at read
      · cases read
      · rename_i known named
        split at read
        · cases read
        · rename_i bitcode binary
          cases read
          obtain ⟨listed, name⟩ := Group.parse?_eq_some_iff.1 named
          rw [Bitcode.parse?_eq_some_iff.1 binary] at words
          exact ⟨group, function, Bytes.fields_eq_iff.1 words, listed, name, rfl⟩
    · cases read
  · rintro ⟨group, function, words, listed, name, case⟩
    rw [readLine, Bytes.fields_eq_iff.2 words]
    dsimp only
    rw [Group.parse?_eq_some_iff.2 ⟨listed, name⟩]
    dsimp only
    rw [Bitcode.parse?_digits]
    dsimp only
    rw [case]

theorem Gives.unique {a b : Opcode} (first : Gives line a) (second : Gives line b) : a = b := by
  have same := (readLine_eq_some_iff.2 first).symm.trans (readLine_eq_some_iff.2 second)
  cases same
  rfl

/-- The rule that a line breaks after others that break none. -/
inductive Offends (before : List Bytes) (line : Bytes) : Fault → Prop
  | wordCount {words : List Bytes} (holds : line.Words words) (some : words.length ≠ 0)
      (other : words.length ≠ 3) : Offends before line .wordCount
  | group {group function digits : Bytes} (holds : line.Words [group, function, digits])
      (unknown : ¬NamesGroup group) : Offends before line (.groupUnknown group)
  | bitcode {group function digits : Bytes} (holds : line.Words [group, function, digits])
      (known : NamesGroup group) (wrong : ¬Bitcode.IsDigits digits) : Offends before line .bitcode
  | duplicate {earlier : Bytes} (member : earlier ∈ before) (again : Repeats earlier line) :
      Offends before line .duplicate

/-- A line that is neither blank nor an instruction is refused for the rule that it breaks. -/
theorem readLine_eq_error_iff {before : List Bytes} {fault : Fault} :
    readLine line = .error fault ↔ Offends before line fault ∧ fault ≠ .duplicate := by
  constructor
  · intro read
    unfold readLine at read
    split at read
    · cases read
    · rename_i group function digits words
      have words := Bytes.fields_eq_iff.1 words
      split at read
      · rename_i unknown
        cases read
        exact ⟨.group words (parse?_eq_none_iff.1 unknown), nofun⟩
      · rename_i known named
        split at read
        · rename_i wrong
          cases read
          refine ⟨.bitcode words ⟨known, Group.parse?_eq_some_iff.1 named⟩ fun binary => ?_, nofun⟩
          obtain ⟨bitcode, rfl⟩ := Bitcode.isDigits_iff.1 binary
          rw [Bitcode.parse?_digits] at wrong
          cases wrong
        · cases read
    · rename_i some other
      cases read
      refine ⟨.wordCount (Bytes.fields_eq_iff.1 rfl) ?_ ?_, nofun⟩
      · simpa using some
      · intro three
        obtain ⟨group, function, digits, words⟩ := List.length_eq_three.1 three
        exact other group function digits words
  · rintro ⟨offends, single⟩
    unfold readLine
    cases offends with
    | wordCount holds some other =>
      rw [Bytes.fields_eq_iff.2 holds]
      split
      · exact absurd rfl some
      · exact absurd rfl other
      · rfl
    | group holds unknown =>
      rw [Bytes.fields_eq_iff.2 holds]
      dsimp only
      rw [parse?_eq_none_iff.2 unknown]
    | bitcode holds known wrong =>
      obtain ⟨group, named⟩ := known
      have unread : ∀ bitcode, Bitcode.parse? _ ≠ some bitcode := fun bitcode read =>
        wrong (Bitcode.isDigits_iff.2 ⟨bitcode, Bitcode.parse?_eq_some_iff.1 read⟩)
      rw [Bytes.fields_eq_iff.2 holds]
      dsimp only
      rw [Group.parse?_eq_some_iff.2 named]
      dsimp only
      rw [Option.eq_none_iff_forall_ne_some.2 unread]
    | duplicate => exact absurd rfl single

/-! ### The lines of a text -/

/-- Each line is blank or an instruction, and no two give the same one. -/
structure WellFormed (lines : List Bytes) : Prop where
  legible : ∀ line ∈ lines, line.IsBlank ∨ IsInstruction line
  distinct : lines.Pairwise fun earlier line => ¬Repeats earlier line

/-- The entry that a line gives, if it gives one. -/
def given? (line : Bytes) : Option Opcode := (readLine line).toOption.join

theorem given?_eq_some_iff {entry : Opcode} : given? line = some entry ↔ Gives line entry := by
  rw [← readLine_eq_some_iff, given?]
  cases readLine line with
  | error fault => simp [Except.toOption]
  | ok found => simp [Except.toOption]

def entriesOf (lines : List Bytes) : List Opcode := lines.filterMap given?

theorem mem_entriesOf {lines : List Bytes} {entry : Opcode} :
    entry ∈ entriesOf lines ↔ ∃ line ∈ lines, Gives line entry := by
  simp only [entriesOf, List.mem_filterMap, given?_eq_some_iff]

theorem entriesOf_append_singleton (before : List Bytes) (line : Bytes) :
    entriesOf (before ++ [line]) = entriesOf before ++ (given? line).toList := by
  rw [entriesOf, List.filterMap_append, List.filterMap_cons, List.filterMap_nil]
  cases given? line with
  | none => rfl
  | some entry => rfl

theorem sameInstruction_iff {a b : Opcode} :
    sameInstruction a b = true ↔ a.group = b.group ∧ a.function = b.function := by
  rw [sameInstruction, Bool.and_eq_true, beq_iff_eq, beq_iff_eq]

/-- A line repeats one of those before just when its instruction is among theirs. -/
theorem exists_repeats_iff {before : List Bytes} {entry : Opcode} (gives : Gives line entry) :
    (∃ earlier ∈ before, Repeats earlier line) ↔
      (entriesOf before).any (sameInstruction entry) = true := by
  simp only [List.any_eq_true, mem_entriesOf, sameInstruction_iff]
  constructor
  · rintro ⟨earlier, member, a, b, there, here, group, function⟩
    rw [here.unique gives] at group function
    exact ⟨a, ⟨earlier, member, there⟩, group.symm, function.symm⟩
  · rintro ⟨other, ⟨earlier, member, there⟩, group, function⟩
    exact ⟨earlier, member, other, entry, there, gives, group.symm, function.symm⟩

theorem wellFormed_nil : WellFormed [] := ⟨nofun, List.Pairwise.nil⟩

theorem wellFormed_append_singleton_iff {before : List Bytes} : WellFormed (before ++ [line]) ↔
    WellFormed before ∧ (line.IsBlank ∨ IsInstruction line) ∧
      ∀ earlier ∈ before, ¬Repeats earlier line := by
  constructor
  · rintro ⟨legible, distinct⟩
    rw [List.forall_mem_append, List.forall_mem_singleton] at legible
    rw [List.pairwise_append] at distinct
    exact ⟨⟨legible.1, distinct.1⟩, legible.2, fun earlier member =>
      distinct.2.2 earlier member line List.mem_cons_self⟩
  · rintro ⟨⟨legible, distinct⟩, last, apart⟩
    refine ⟨?_, ?_⟩
    · rw [List.forall_mem_append, List.forall_mem_singleton]
      exact ⟨legible, last⟩
    · rw [List.pairwise_append]
      refine ⟨distinct, List.pairwise_singleton _ _, fun earlier member other alone => ?_⟩
      rw [List.mem_singleton.1 alone]
      exact apart earlier member

/-- Lines are well formed, or there is a first one that breaks a rule. -/
theorem wellFormed_or_offends (lines : List Bytes) : WellFormed lines ∨
    ∃ before line after fault, lines = before ++ line :: after ∧ WellFormed before ∧
      Offends before line fault := by
  induction lines using List.reverseRecOn with
  | nil => exact .inl wellFormed_nil
  | append_singleton before line ih =>
    rcases ih with good | ⟨first, other, after, fault, rfl, good, offends⟩
    · cases read : readLine line with
      | error fault =>
        exact .inr ⟨before, line, [], fault, rfl, good, (readLine_eq_error_iff.1 read).1⟩
      | ok found =>
        by_cases repeated : ∃ earlier ∈ before, Repeats earlier line
        · obtain ⟨earlier, member, again⟩ := repeated
          exact .inr ⟨before, line, [], .duplicate, rfl, good, .duplicate member again⟩
        · have apart : ∀ earlier ∈ before, ¬Repeats earlier line := by simpa using repeated
          refine .inl (wellFormed_append_singleton_iff.2 ⟨good, ?_, apart⟩)
          cases found with
          | none => exact .inl (readLine_eq_none_iff.1 read)
          | some entry => exact .inr (isInstruction_iff.2 ⟨entry, readLine_eq_some_iff.1 read⟩)
    · exact .inr ⟨first, other, after ++ [line], fault, by simp, good, offends⟩

section Run

variable {tooLong : Bool} {before : List Bytes}

/-- A line that breaks no rule adds the entry that it gives. -/
theorem readFrom_of_legible {number : Nat} {last : Bytes}
    (legible : line.IsBlank ∨ IsInstruction line)
    (apart : ∀ earlier ∈ before, ¬Repeats earlier line) (rest : List Bytes) :
    readFrom tooLong (entriesOf before).reverse number last (line :: rest) =
      readFrom tooLong (entriesOf (before ++ [line])).reverse (number + 1) line rest := by
  rw [readFrom, entriesOf_append_singleton]
  rcases legible with blank | instruction
  · have read := readLine_eq_none_iff.2 blank
    have silent : given? line = none := by
      rw [given?, read]
      rfl
    rw [read, silent, Option.toList_none, List.append_nil]
  · obtain ⟨entry, gives⟩ := isInstruction_iff.1 instruction
    have fresh : ¬(entriesOf before).any (sameInstruction entry) = true := by
      rw [← exists_repeats_iff gives]
      simpa using apart
    rw [readLine_eq_some_iff.2 gives, given?_eq_some_iff.2 gives, Option.toList_some,
      List.reverse_append, List.reverse_singleton, List.singleton_append]
    dsimp only
    rw [List.any_reverse, if_neg fresh]

/-- A line that breaks a rule is reported. -/
theorem readFrom_of_offends {number : Nat} {last : Bytes} {fault : Fault}
    (offends : Offends before line fault) (rest : List Bytes) :
    readFrom tooLong (entriesOf before).reverse number last (line :: rest) =
      .error ⟨number + 1, line, fault⟩ := by
  rw [readFrom]
  by_cases single : fault = .duplicate
  · subst single
    cases offends with
    | duplicate member again =>
      obtain ⟨_, entry, _, gives, _⟩ := id again
      have repeated := (exists_repeats_iff gives).1 ⟨_, member, again⟩
      rw [readLine_eq_some_iff.2 gives]
      dsimp only
      rw [List.any_reverse, if_pos repeated]
  · rw [readLine_eq_error_iff.2 ⟨offends, single⟩]

/-- Lines that break no rule are read one after another. -/
theorem readFrom_of_wellFormed (tooLong : Bool) (good : WellFormed before) (rest : List Bytes) :
    ∃ last, readFrom tooLong [] 0 [] (before ++ rest) =
      readFrom tooLong (entriesOf before).reverse before.length last rest := by
  induction before using List.reverseRecOn generalizing rest with
  | nil => exact ⟨[], rfl⟩
  | append_singleton before line ih =>
    obtain ⟨good, legible, apart⟩ := wellFormed_append_singleton_iff.1 good
    obtain ⟨last, read⟩ := ih good (line :: rest)
    refine ⟨line, ?_⟩
    rw [List.append_assoc, List.singleton_append, read, readFrom_of_legible legible apart,
      List.length_append, List.length_singleton]

end Run

section Text

variable {text : Bytes}

/-- A text whose lines break no rule is a table of the entries that they give. -/
theorem parse_of_wellFormed (short : (Lines.read text).tooLong = false)
    (good : WellFormed (Lines.read text).lines) :
    parse text = .ok ⟨entriesOf (Lines.read text).lines⟩ := by
  obtain ⟨last, read⟩ := readFrom_of_wellFormed false good []
  rw [List.append_nil] at read
  rw [parse, short, read, readFrom, List.reverse_reverse]
  rfl

theorem parse_of_offends {before after : List Bytes} {line : Bytes} {fault : Fault}
    (lines : (Lines.read text).lines = before ++ line :: after) (good : WellFormed before)
    (offends : Offends before line fault) :
    parse text = .error ⟨before.length + 1, line, fault⟩ := by
  obtain ⟨last, read⟩ := readFrom_of_wellFormed (Lines.read text).tooLong good (line :: after)
  rw [parse, lines, read, readFrom_of_offends offends]
  rfl

/-- A text is a table just when its lines break no rule. -/
theorem parse_eq_ok_iff (short : (Lines.read text).tooLong = false) {table : Opcodes} :
    parse text = .ok table ↔ WellFormed (Lines.read text).lines ∧
      table = ⟨entriesOf (Lines.read text).lines⟩ := by
  constructor
  · intro read
    rcases wellFormed_or_offends (Lines.read text).lines with good |
        ⟨before, line, after, fault, lines, good, offends⟩
    · rw [parse_of_wellFormed short good] at read
      exact ⟨good, (Except.ok.inj read).symm⟩
    · rw [parse_of_offends lines good offends] at read
      cases read
  · rintro ⟨good, rfl⟩
    exact parse_of_wellFormed short good

/-- The first line that breaks a rule is the one that is reported. -/
theorem parse_eq_error_iff (short : (Lines.read text).tooLong = false) {number : Nat} {line : Bytes}
    {fault : Fault} : parse text = .error ⟨number, line, fault⟩ ↔
      ∃ before after, (Lines.read text).lines = before ++ line :: after ∧
        number = before.length + 1 ∧ WellFormed before ∧ Offends before line fault := by
  constructor
  · intro read
    rcases wellFormed_or_offends (Lines.read text).lines with good |
        ⟨before, line, after, fault, lines, good, offends⟩
    · rw [parse_of_wellFormed short good] at read
      cases read
    · rw [parse_of_offends lines good offends] at read
      cases read
      exact ⟨before, after, lines, rfl, good, offends⟩
  · rintro ⟨before, after, lines, rfl, good, offends⟩
    exact parse_of_offends lines good offends

end Text

/-! ### What a table says -/

section Table

variable {lines : List Bytes}

theorem distinct_entriesOf (good : WellFormed lines) :
    (entriesOf lines).Pairwise fun a b => ¬(a.group = b.group ∧ a.function = b.function) := by
  rw [entriesOf, List.pairwise_filterMap]
  refine good.distinct.imp fun apart a first b second same => ?_
  exact apart ⟨a, b, given?_eq_some_iff.1 first, given?_eq_some_iff.1 second, same⟩

/-- No two entries of a table are for the same instruction. -/
theorem entry_unique (good : WellFormed lines) {a b : Opcode} (first : a ∈ entriesOf lines)
    (second : b ∈ entriesOf lines) (group : a.group = b.group)
    (function : a.function = b.function) : a = b := by
  by_contra other
  have : Std.Symm fun a b : Opcode => ¬(a.group = b.group ∧ a.function = b.function) :=
    ⟨fun _ _ apart same => apart ⟨same.1.symm, same.2.symm⟩⟩
  exact (distinct_entriesOf good).forall first second other ⟨group, function⟩

theorem hasGroup_iff {table : Opcodes} {group : Group} :
    table.hasGroup group = true ↔ ∃ entry ∈ table.entries, entry.group = group := by
  rw [hasGroup, List.any_eq_true]
  simp only [beq_iff_eq]

/-- An instruction has the bitcode that a line gives it. -/
theorem bitcode_eq_ok_iff (good : WellFormed lines) {group : Group} {function : Bytes}
    {bitcode : Bitcode} : (⟨entriesOf lines⟩ : Opcodes).bitcode group function = .ok bitcode ↔
      ∃ line ∈ lines, Gives line ⟨group, upper function, bitcode⟩ := by
  rw [← mem_entriesOf]
  constructor
  · intro known
    obtain ⟨entry, member, owner, same, found⟩ := entry_of_bitcode known
    have matched := List.find?_some found
    rw [Bool.and_eq_true, beq_iff_eq, beq_iff_eq] at matched
    rw [← owner, ← matched.2, ← same]
    exact member
  · intro member
    have has : (⟨entriesOf lines⟩ : Opcodes).hasGroup group = true :=
      hasGroup_iff.2 ⟨_, member, rfl⟩
    rw [Opcodes.bitcode, if_pos has]
    cases found : (⟨entriesOf lines⟩ : Opcodes).find? group function with
    | none =>
      have other := List.find?_eq_none.1 found _ member
      simp at other
    | some entry =>
      have matched := List.find?_some found
      rw [Bool.and_eq_true, beq_iff_eq, beq_iff_eq] at matched
      rw [entry_unique good (List.mem_of_find?_eq_some found) member matched.1 matched.2]

/-- A name finds a group that some line gives an instruction of. -/
theorem group?_eq_some_iff {name : Bytes} {group : Group} :
    (⟨entriesOf lines⟩ : Opcodes).group? name = some group ↔
      group ∈ Group.all ∧ upper name = group.name ∧
        ∃ line ∈ lines, ∃ entry, Gives line entry ∧ entry.group = group := by
  rw [group?, Option.filter_eq_some_iff, Group.parse?_eq_some_iff, hasGroup_iff, and_assoc]
  simp only [mem_entriesOf]
  refine and_congr_right fun _ => and_congr_right fun _ => ?_
  constructor
  · rintro ⟨entry, ⟨line, member, gives⟩, owner⟩
    exact ⟨line, member, entry, gives, owner⟩
  · rintro ⟨line, member, entry, gives, owner⟩
    exact ⟨entry, ⟨line, member, gives⟩, owner⟩

/-- A bitcode finds the entry of the first line that gives it. -/
theorem withBitcode?_eq_some_iff {bitcode : Bitcode} {entry : Opcode} :
    (⟨entriesOf lines⟩ : Opcodes).withBitcode? bitcode = some entry ↔
      entry.bitcode = bitcode ∧ ∃ before line after, lines = before ++ line :: after ∧
        Gives line entry ∧
        ∀ earlier ∈ before, ∀ other, Gives earlier other → other.bitcode ≠ bitcode := by
  have has : ∀ line, (given? line).any (·.bitcode == bitcode) = true ↔
      ∃ other, Gives line other ∧ other.bitcode = bitcode := by
    intro line
    simp only [Option.any_eq_true, given?_eq_some_iff, beq_iff_eq]
  have hasNot : ∀ line, (!(given? line).any (·.bitcode == bitcode)) = true ↔
      ∀ other, Gives line other → other.bitcode ≠ bitcode := by
    intro line
    rw [Bool.not_eq_true', ← Bool.not_eq_true, has]
    simp only [not_exists, not_and, ne_eq]
  rw [withBitcode?, entriesOf, List.find?_filterMap, Option.bind_eq_some_iff]
  simp only [List.find?_eq_some_iff_append, has, hasNot, given?_eq_some_iff]
  constructor
  · rintro ⟨line, ⟨⟨other, there, same⟩, before, after, split, apart⟩, gives⟩
    rw [there.unique gives] at same
    exact ⟨same, before, line, after, split, gives, apart⟩
  · rintro ⟨same, before, line, after, split, gives, apart⟩
    exact ⟨line, ⟨⟨entry, gives, same⟩, before, after, split, apart⟩, gives⟩

/-- Digits find the entry of the first line that gives their bitcode. -/
theorem withDigits?_eq_some_iff {digits : Bytes} {entry : Opcode} :
    (⟨entriesOf lines⟩ : Opcodes).withDigits? digits = some entry ↔
      entry.bitcode.digits = digits ∧ ∃ before line after, lines = before ++ line :: after ∧
        Gives line entry ∧
        ∀ earlier ∈ before, ∀ other, Gives earlier other → other.bitcode.digits ≠ digits := by
  rw [withDigits?, Option.bind_eq_some_iff]
  have injective {a b : Bitcode} : a.digits = b.digits ↔ a = b := by
    rw [← Bitcode.parse?_eq_some_iff, Bitcode.parse?_digits, Option.some.injEq]
  constructor
  · rintro ⟨bitcode, read, found⟩
    rw [Bitcode.parse?_eq_some_iff.1 read]
    simpa only [ne_eq, injective] using withBitcode?_eq_some_iff.1 found
  · rintro ⟨rfl, found⟩
    simp only [ne_eq, injective] at found
    exact ⟨entry.bitcode, Bitcode.parse?_digits _, withBitcode?_eq_some_iff.2 ⟨rfl, found⟩⟩

end Table

/-- A text is a table just when each line is blank or an instruction and no line repeats another.
The table has the bitcodes, the groups and the first instruction of each bitcode that the lines give. If
there is no table, the first line that breaks a rule is reported, with its number. -/
theorem parse_exact (text : Bytes) (short : (Lines.read text).tooLong = false) :
    ((∃ table, parse text = .ok table) ↔
      (∀ line ∈ (Lines.read text).lines, line.IsBlank ∨ IsInstruction line) ∧
        (Lines.read text).lines.Pairwise fun earlier line => ¬Repeats earlier line) ∧
    (∀ table, parse text = .ok table →
      (∀ group function bitcode, table.bitcode group function = .ok bitcode ↔
        ∃ line ∈ (Lines.read text).lines, Gives line ⟨group, upper function, bitcode⟩) ∧
      (∀ name group, table.group? name = some group ↔
        group ∈ Group.all ∧ upper name = group.name ∧
          ∃ line ∈ (Lines.read text).lines, ∃ entry, Gives line entry ∧ entry.group = group) ∧
      (∀ digits entry, table.withDigits? digits = some entry ↔
        entry.bitcode.digits = digits ∧
          ∃ before line after, (Lines.read text).lines = before ++ line :: after ∧
            Gives line entry ∧
            ∀ earlier ∈ before, ∀ other, Gives earlier other → other.bitcode.digits ≠ digits)) ∧
    (∀ number line fault, parse text = .error ⟨number, line, fault⟩ ↔
      ∃ before after, (Lines.read text).lines = before ++ line :: after ∧
        number = before.length + 1 ∧ WellFormed before ∧ Offends before line fault) := by
  refine ⟨⟨?_, ?_⟩, ?_, fun number line fault => parse_eq_error_iff short⟩
  · rintro ⟨table, read⟩
    obtain ⟨⟨legible, distinct⟩, _⟩ := (parse_eq_ok_iff short).1 read
    exact ⟨legible, distinct⟩
  · rintro ⟨legible, distinct⟩
    exact ⟨_, parse_of_wellFormed short ⟨legible, distinct⟩⟩
  · intro table read
    obtain ⟨good, rfl⟩ := (parse_eq_ok_iff short).1 read
    exact ⟨fun group function bitcode => bitcode_eq_ok_iff good,
      fun name group => group?_eq_some_iff, fun digits entry => withDigits?_eq_some_iff⟩

/-- Two functions with one bitcode, and a line of white space between them. -/
def sharedTable : Bytes := ascii "Soper READN 10110\n \t\nSOPER readc 10110\n"

/-- One instruction twice, once in lower case. -/
def repeatedTable : Bytes := ascii "CNTL HALT 00000\ncntl halt 00001"

/-- The shared bitcode leads to the function that stands first, and the repeated instruction is
refused where it stands again. -/
theorem parse_exact_sharedTable : (Lines.read sharedTable).tooLong = false ∧
    (∃ table, parse sharedTable = .ok table ∧
      table.bitcode .soper (ascii "ReadC") = .ok 0b10110 ∧
      table.withDigits? (ascii "10110") = some ⟨.soper, ascii "READN", 0b10110⟩) ∧
    (Lines.read repeatedTable).tooLong = false ∧
    parse repeatedTable = .error ⟨2, ascii "cntl halt 00001", .duplicate⟩ := by
  have gives {line : Bytes} {entry : Opcode} (read : readLine line = .ok (some entry)) :
      Gives line entry := readLine_eq_some_iff.1 read
  have short : (Lines.read sharedTable).tooLong = false := by decide +kernel
  have shortAgain : (Lines.read repeatedTable).tooLong = false := by decide +kernel
  refine ⟨short, ?_, shortAgain, ?_⟩
  · have lines : (Lines.read sharedTable).lines =
        [ascii "Soper READN 10110", ascii " \t", ascii "SOPER readc 10110"] := by decide +kernel
    have read : parse sharedTable = .ok ⟨[⟨.soper, ascii "READN", 0b10110⟩,
        ⟨.soper, ascii "READC", 0b10110⟩]⟩ := by decide +kernel
    obtain ⟨_, known, _⟩ := parse_exact sharedTable short
    obtain ⟨codes, _, digits⟩ := known _ read
    refine ⟨_, read, (codes _ _ _).2 ⟨ascii "SOPER readc 10110", ?_, gives ?_⟩,
      (digits _ _).2 ⟨by decide +kernel, [], _, _, lines, gives ?_, nofun⟩⟩
    · rw [lines]
      decide
    · decide +kernel
    · decide +kernel
  · have lines : (Lines.read repeatedTable).lines =
        [ascii "CNTL HALT 00000", ascii "cntl halt 00001"] := by decide +kernel
    have first : Gives (ascii "CNTL HALT 00000") ⟨.cntl, ascii "HALT", 0b00000⟩ :=
      gives (by decide +kernel)
    have again : Gives (ascii "cntl halt 00001") ⟨.cntl, ascii "HALT", 0b00001⟩ :=
      gives (by decide +kernel)
    have good : WellFormed [ascii "CNTL HALT 00000"] :=
      ⟨by simpa using Or.inr (isInstruction_iff.2 ⟨_, first⟩), List.pairwise_singleton _ _⟩
    obtain ⟨_, _, refused⟩ := parse_exact repeatedTable shortAgain
    exact (refused _ _ _).2 ⟨[ascii "CNTL HALT 00000"], [], lines, rfl, good,
      .duplicate List.mem_cons_self ⟨_, _, first, again, rfl, rfl⟩⟩

end Opcodes

end WordAssembler

import WordAssembler.ObjectFile.File
import WordAssembler.Proofs.Start

/-!
Object files are read back. The fields of a record are joined by colons without any quoting, and
records by line feeds, so a text can be taken apart if the labels in it are words and the numbers
fit their fields. The identifier of the assembler is free: it comes after all that is read of a
header.
-/

set_option autoImplicit false

namespace WordAssembler

/-! ### What is read of a text -/

/-- What an object file says of its program, without the date, the versions and the counts. -/
structure ObjectFile.Contents where
  name : Bytes
  load : Int
  length : Int
  start : Int
  linking : List Linking
  text : List TextRecord
  modifications : List Modification
deriving DecidableEq, Repr

def ObjectFile.contents (file : ObjectFile) : ObjectFile.Contents where
  name := file.header.name
  load := file.header.load
  length := file.header.length
  start := file.header.start
  linking := file.linking
  text := file.text
  modifications := file.modifications

namespace Decoder

def isColon (b : UInt8) : Bool := b == byte ':'

def fields (line : Bytes) : List Bytes := pieces isColon line

def number? (field : Bytes) : Option Int := (Numeral.read? 16 field).map Int.ofNat

def word? (field : Bytes) : Option Word := (Numeral.read? 16 field).map (BitVec.ofNat 16)

def flag? (field : Bytes) : Option Flag := Flag.all.find? (·.name == field)

def sign? (field : Bytes) : Option Bool :=
  if field = ascii "+" then some true else if field = ascii "-" then some false else none

/-- The end of a modification record: adjustments of two fields each, then the program. -/
def adjustments? : List Bytes → Option (List Adjustment × Bytes)
  | [] => none
  | [program] => some ([], program)
  | sign :: label :: later => do
    let positive ← sign? sign
    let (adjustments, program) ← adjustments? later
    some (⟨positive, label⟩ :: adjustments, program)

def linking? : List Bytes → Option Linking
  | [kind, entry, location, program] => do
    guard (kind = ascii "L")
    some ⟨entry, ← number? location, program⟩
  | _ => none

def textRecord? : List Bytes → Option TextRecord
  | [kind, location, word, flag, count, program] => do
    guard (kind = ascii "T")
    some ⟨← number? location, ← word? word, ← flag? flag, ← number? count, program⟩
  | _ => none

def modification? : List Bytes → Option Modification
  | kind :: location :: word :: rest => do
    guard (kind = ascii "M")
    let (adjustments, program) ← adjustments? rest
    some ⟨← number? location, ← word? word, adjustments, program⟩
  | _ => none

/-- What the fields of a header and of the records after it say. -/
def contents? : List (List Bytes) → Option ObjectFile.Contents
  | (kind :: name :: load :: length :: start :: _) :: records => do
    guard (kind = ascii "H")
    some ⟨name, ← number? load, ← number? length, ← number? start, records.filterMap linking?,
      records.filterMap textRecord?, records.filterMap modification?⟩
  | _ => none

/-- Reads the text of an object file. -/
def decode? (text : Bytes) : Option ObjectFile.Contents := contents? ((Lines.runs text).map fields)

end Decoder

/-! ### What fits a record -/

/-- A nonempty run of letters and digits. -/
structure Bytes.IsWord (text : Bytes) : Prop where
  nonempty : text ≠ []
  letters : ∀ b ∈ text, Bytes.isAlphanumeric b = true

/-- A number that four hexadecimal digits hold. -/
structure FitsField (value : Int) : Prop where
  lower : 0 ≤ value
  upper : value < 65536

structure Linking.Fits (record : Linking) : Prop where
  entry : record.entry.IsWord
  location : FitsField record.location
  program : record.program.IsWord

structure TextRecord.Fits (record : TextRecord) : Prop where
  location : FitsField record.location
  word : FitsField record.word.toNat
  flag : record.flag ∈ Flag.all
  fewest : 0 ≤ record.adjustments
  most : record.adjustments ≤ mostAdjustments
  program : record.program.IsWord

structure Modification.Fits (record : Modification) : Prop where
  location : FitsField record.location
  word : FitsField record.word.toNat
  labels : ∀ adjustment ∈ record.adjustments, adjustment.label.IsWord
  program : record.program.IsWord

/-- The labels of a file are words, and its numbers fit their fields. -/
structure ObjectFile.Fits (file : ObjectFile) : Prop where
  name : file.header.name.IsWord
  load : FitsField file.header.load
  length : FitsField file.header.length
  start : FitsField file.header.start
  linking : ∀ record ∈ file.linking, record.Fits
  text : ∀ record ∈ file.text, record.Fits
  modifications : ∀ record ∈ file.modifications, record.Fits
  program : file.program.IsWord

theorem fitsField_word (word : Word) : FitsField word.toNat := by
  have bound := word.isLt
  constructor <;> omega

/-! ### Fields -/

theorem Bytes.IsWord.not_mem {text : Bytes} (word : text.IsWord) {b : UInt8}
    (mark : Bytes.isAlphanumeric b = false) : b ∉ text := by
  intro member
  exact Bytes.ne_of_isAlphanumeric (word.letters b member) mark rfl

theorem hexField_isWord (value : Int) : Bytes.IsWord (hexField value) where
  nonempty := by
    obtain ⟨zeros, text⟩ := hexField_eq value
    rw [text]
    intro empty
    exact Numeral.digits_ne_nil (by omega) _ (List.append_eq_nil_iff.1 empty).2
  letters _ member := isAlphanumeric_of_mem_hexField member

theorem joinFields_cons {first : Bytes} {rest : List Bytes} (more : rest ≠ []) :
    joinFields (first :: rest) = first ++ byte ':' :: joinFields rest := by
  obtain ⟨second, rest, rfl⟩ := List.exists_cons_of_ne_nil more
  simp [joinFields, List.intercalate, List.intersperse]

theorem mem_joinFields {values : List Bytes} {b : UInt8} (member : b ∈ joinFields values) :
    b = byte ':' ∨ ∃ value ∈ values, b ∈ value := by
  induction values with
  | nil => simp [joinFields, List.intercalate] at member
  | cons first rest ih =>
    by_cases more : rest = []
    · subst more
      refine Or.inr ⟨first, List.mem_cons_self, ?_⟩
      simpa [joinFields, List.intercalate] using member
    · rw [joinFields_cons more] at member
      rcases List.mem_append.1 member with here | later
      · exact Or.inr ⟨first, List.mem_cons_self, here⟩
      · rcases List.mem_cons.1 later with colon | inside
        · exact Or.inl colon
        · rcases ih inside with colon | ⟨value, known, within⟩
          · exact Or.inl colon
          · exact Or.inr ⟨value, List.mem_cons_of_mem _ known, within⟩

/-- A record of words is one line. -/
theorem joinFields_plain {values : List Bytes} (plain : ∀ value ∈ values, byte '\n' ∉ value) :
    byte '\n' ∉ joinFields values := by
  intro member
  rcases mem_joinFields member with colon | ⟨value, known, within⟩
  · cases colon
  · exact plain value known within

namespace Decoder

theorem fields_of_free {text : Bytes} (free : byte ':' ∉ text) : fields text = [text] := by
  refine pieces_of_free fun b member => ?_
  have other : b ≠ byte ':' := by
    rintro rfl
    exact free member
  simpa [isColon] using other

theorem fields_of_word {text : Bytes} (word : text.IsWord) : fields text = [text] :=
  fields_of_free (word.not_mem rfl)

theorem fields_hexField (value : Int) : fields (hexField value) = [hexField value] :=
  fields_of_word (hexField_isWord value)

theorem fields_joinFields {values : List Bytes} (some : values ≠ []) :
    fields (joinFields values) = values.flatMap fields := by
  induction values with
  | nil => contradiction
  | cons first rest ih =>
    by_cases more : rest = []
    · subst more
      simp [joinFields, List.intercalate]
    · rw [joinFields_cons more, fields, pieces_append_cons rfl, List.flatMap_cons]
      exact congrArg _ (ih more)

theorem number?_hexField {value : Int} (fits : FitsField value) :
    number? (hexField value) = some value := by
  rw [number?, read?_hexField fits.lower fits.upper, Option.map_some]
  exact congrArg some (Int.toNat_of_nonneg fits.lower)

theorem word?_hexField (word : Word) : word? (hexField word.toNat) = some word := by
  have fits := fitsField_word word
  rw [word?, read?_hexField fits.lower fits.upper, Option.map_some, Int.toNat_natCast,
    BitVec.ofNat_toNat, BitVec.setWidth_eq]

theorem flag?_name {flag : Flag} (listed : flag ∈ Flag.all) : flag? flag.name = some flag := by
  have checked : ∀ flag ∈ Flag.all, flag? flag.name = some flag := by decide
  exact checked flag listed

theorem number?_digits {value : Int} (lower : 0 ≤ value) (upper : value ≤ mostAdjustments) :
    number? (Numeral.digits 16 (value % 16).toNat) = some value := by
  have small : value % 16 = value := by
    unfold mostAdjustments at upper
    omega
  have read : Numeral.read? 16 (Numeral.digits 16 value.toNat) = some value.toNat :=
    Numeral.read?_replicate_digits (by omega) (by omega) 0 value.toNat
  rw [small, number?, read, Option.map_some]
  exact congrArg some (Int.toNat_of_nonneg lower)

/-! ### Records -/

section Record

variable {record : Linking} {text : TextRecord} {modification : Modification}

theorem fields_linking (fits : record.Fits) : fields record.line =
    [ascii "L", record.entry, hexField record.location, record.program] := by
  rw [Linking.line, fields_joinFields (List.cons_ne_nil _ _)]
  simp only [List.flatMap_cons, List.flatMap_nil, fields_of_word fits.entry, fields_hexField,
    fields_of_word fits.program]
  rfl

theorem linking?_fields (fits : record.Fits) : linking? (fields record.line) = some record := by
  rw [fields_linking fits]
  simp [linking?, number?_hexField fits.location, guard]

theorem fields_text (fits : text.Fits) : fields text.line =
    [ascii "T", hexField text.location, hexField text.word.toNat, text.flag.name,
      Numeral.digits 16 (text.adjustments % 16).toNat, text.program] := by
  have flag : fields text.flag.name = [text.flag.name] := by
    have checked : ∀ flag ∈ Flag.all, fields flag.name = [flag.name] := by decide
    exact checked _ fits.flag
  have count := fields_of_word
    ⟨Numeral.digits_ne_nil (by omega) (text.adjustments % 16).toNat,
      fun _ => Numeral.isAlphanumeric_of_mem_digits⟩
  rw [TextRecord.line, fields_joinFields (List.cons_ne_nil _ _)]
  simp only [List.flatMap_cons, List.flatMap_nil, fields_hexField, flag, count,
    fields_of_word fits.program]
  rfl

theorem textRecord?_fields (fits : text.Fits) : textRecord? (fields text.line) = some text := by
  rw [fields_text fits]
  simp [textRecord?, number?_hexField fits.location, word?_hexField, flag?_name fits.flag,
    number?_digits fits.fewest fits.most, guard]

def signFields (adjustment : Adjustment) : List Bytes :=
  [if adjustment.positive then ascii "+" else ascii "-", adjustment.label]

theorem fields_adjustment {adjustment : Adjustment} (word : adjustment.label.IsWord) :
    fields adjustment.text = signFields adjustment := by
  have sign : fields (if adjustment.positive then ascii "+" else ascii "-") =
      [if adjustment.positive then ascii "+" else ascii "-"] := by
    cases adjustment.positive <;> rfl
  rw [Adjustment.text, fields_joinFields (List.cons_ne_nil _ _)]
  simp only [List.flatMap_cons, List.flatMap_nil, sign, fields_of_word word]
  rfl

theorem fields_modification (fits : modification.Fits) : fields modification.line =
    ascii "M" :: hexField modification.location :: hexField modification.word.toNat ::
      (modification.adjustments.flatMap signFields ++ [modification.program]) := by
  have adjustments : (modification.adjustments.map Adjustment.text).flatMap fields =
      modification.adjustments.flatMap signFields := by
    rw [List.flatMap_map]
    exact List.flatMap_congr fun adjustment member =>
      fields_adjustment (fits.labels adjustment member)
  rw [Modification.line, fields_joinFields (by simp), List.flatMap_append, List.flatMap_append,
    adjustments]
  simp only [List.flatMap_cons, List.flatMap_nil, fields_hexField, fields_of_word fits.program]
  rfl

theorem adjustments?_signFields (adjustments : List Adjustment) (program : Bytes) :
    adjustments? (adjustments.flatMap signFields ++ [program]) = some (adjustments, program) := by
  induction adjustments with
  | nil => rfl
  | cons adjustment later ih =>
    have sign : sign? (if adjustment.positive then ascii "+" else ascii "-") =
        some adjustment.positive := by
      cases adjustment.positive <;> rfl
    have split : (adjustment :: later).flatMap signFields ++ [program] =
        (if adjustment.positive then ascii "+" else ascii "-") :: adjustment.label ::
          (later.flatMap signFields ++ [program]) := by
      rw [List.flatMap_cons, List.append_assoc]
      rfl
    rw [split, adjustments?, sign, ih]
    rfl

theorem modification?_fields (fits : modification.Fits) :
    modification? (fields modification.line) = some modification := by
  rw [fields_modification fits]
  simp [modification?, adjustments?_signFields, number?_hexField fits.location, word?_hexField,
    guard]

end Record

section Kind

variable {kind : Bytes} {rest : List Bytes}

theorem linking?_of_kind (other : kind ≠ ascii "L") : linking? (kind :: rest) = none := by
  unfold linking?
  split
  · rename_i same
    rw [(List.cons.inj same).1] at other
    simp [guard, other]
  · rfl

theorem textRecord?_of_kind (other : kind ≠ ascii "T") : textRecord? (kind :: rest) = none := by
  unfold textRecord?
  split
  · rename_i same
    rw [(List.cons.inj same).1] at other
    simp [guard, other]
  · rfl

theorem modification?_of_kind (other : kind ≠ ascii "M") : modification? (kind :: rest) = none := by
  unfold modification?
  split
  · rename_i same
    rw [(List.cons.inj same).1] at other
    simp [guard, other]
  · rfl

end Kind

/-! ### Files -/

theorem filterMap_same {α : Type} {items : List α} {line : α → Bytes}
    {read : List Bytes → Option α} (each : ∀ item ∈ items, read (fields (line item)) = some item) :
    (items.map (fields ∘ line)).filterMap read = items := by
  have known : items.filterMap (read ∘ fields ∘ line) = items.filterMap some :=
    List.filterMap_congr each
  rw [List.filterMap_map, known, List.filterMap_some]

theorem filterMap_other {α β : Type} {items : List α} {line : α → Bytes}
    {read : List Bytes → Option β} (each : ∀ item ∈ items, read (fields (line item)) = none) :
    (items.map (fields ∘ line)).filterMap read = [] := by
  rw [List.filterMap_map]
  exact List.filterMap_eq_nil_iff.2 each

section File

variable {file : ObjectFile}

def body (file : ObjectFile) : List (List Bytes) :=
  file.linking.map (fields ∘ Linking.line) ++ file.text.map (fields ∘ TextRecord.line) ++
    file.modifications.map (fields ∘ Modification.line) ++
    [fields (joinFields [ascii "E", file.program])]

theorem fields_records : (file.records.map Record.line).map fields =
    fields file.header.line :: body file := by
  simp [ObjectFile.records, body, Function.comp_def, Record.line]

theorem fields_header (fits : file.Fits) : ∃ rest, fields file.header.line =
    ascii "H" :: file.header.name :: hexField file.header.load :: hexField file.header.length ::
      hexField file.header.start :: rest := by
  rw [Header.line, fields_joinFields (List.cons_ne_nil _ _)]
  simp only [List.flatMap_cons, fields_of_word fits.name, fields_hexField]
  exact ⟨_, rfl⟩

variable (fits : file.Fits)
include fits

theorem fields_finish : fields (joinFields [ascii "E", file.program]) =
    [ascii "E", file.program] := by
  rw [fields_joinFields (List.cons_ne_nil _ _)]
  simp only [List.flatMap_cons, List.flatMap_nil, fields_of_word fits.program]
  rfl

section Skips

variable {β : Type} {read : List Bytes → Option β}

theorem skips_linking (skips : ∀ rest, read (ascii "L" :: rest) = none) :
    (file.linking.map (fields ∘ Linking.line)).filterMap read = [] := by
  refine filterMap_other fun record member => ?_
  rw [fields_linking (fits.linking record member), skips]

theorem skips_text (skips : ∀ rest, read (ascii "T" :: rest) = none) :
    (file.text.map (fields ∘ TextRecord.line)).filterMap read = [] := by
  refine filterMap_other fun record member => ?_
  rw [fields_text (fits.text record member), skips]

theorem skips_modifications (skips : ∀ rest, read (ascii "M" :: rest) = none) :
    (file.modifications.map (fields ∘ Modification.line)).filterMap read = [] := by
  refine filterMap_other fun record member => ?_
  rw [fields_modification (fits.modifications record member), skips]

theorem skips_finish (skips : ∀ rest, read (ascii "E" :: rest) = none) :
    [fields (joinFields [ascii "E", file.program])].filterMap read = [] := by
  rw [fields_finish fits, List.filterMap_cons, skips, List.filterMap_nil]

end Skips

theorem linking_body : (body file).filterMap linking? = file.linking := by
  have same := filterMap_same fun record member => linking?_fields (fits.linking record member)
  simp only [body, List.filterMap_append, same,
    skips_text fits fun _ => linking?_of_kind (by decide),
    skips_modifications fits fun _ => linking?_of_kind (by decide),
    skips_finish fits fun _ => linking?_of_kind (by decide), List.append_nil]

theorem text_body : (body file).filterMap textRecord? = file.text := by
  have same := filterMap_same fun record member => textRecord?_fields (fits.text record member)
  simp only [body, List.filterMap_append, same,
    skips_linking fits fun _ => textRecord?_of_kind (by decide),
    skips_modifications fits fun _ => textRecord?_of_kind (by decide),
    skips_finish fits fun _ => textRecord?_of_kind (by decide), List.append_nil, List.nil_append]

theorem modifications_body : (body file).filterMap modification? = file.modifications := by
  have same := filterMap_same fun record member =>
    modification?_fields (fits.modifications record member)
  simp only [body, List.filterMap_append, same,
    skips_linking fits fun _ => modification?_of_kind (by decide),
    skips_text fits fun _ => modification?_of_kind (by decide),
    skips_finish fits fun _ => modification?_of_kind (by decide), List.append_nil, List.nil_append]

theorem contents?_records :
    contents? ((file.records.map Record.line).map fields) = some file.contents := by
  obtain ⟨rest, header⟩ := fields_header fits
  rw [fields_records, header]
  simp [contents?, number?_hexField fits.load, number?_hexField fits.length,
    number?_hexField fits.start, linking_body fits, text_body fits, modifications_body fits,
    ObjectFile.contents, guard]

end File

end Decoder

/-! ### Lines -/

theorem Lines.runs_ofLines {lines : List Bytes} (plain : ∀ line ∈ lines, byte '\n' ∉ line) :
    runs (ofLines lines) = lines := by
  induction lines with
  | nil => rfl
  | cons line later ih =>
    have split : ofLines (line :: later) = line ++ byte '\n' :: ofLines later := by
      simp [ofLines]
    rw [split, runs_append, ih]
    · intro other member
      exact plain other (List.mem_cons_of_mem _ member)
    · rintro b member rfl
      exact plain line List.mem_cons_self member

theorem Bytes.IsWord.plain {text : Bytes} (word : text.IsWord) : byte '\n' ∉ text :=
  word.not_mem rfl

theorem hexField_plain (value : Int) : byte '\n' ∉ hexField value := (hexField_isWord value).plain

theorem Numeral.padded_plain (width : Nat) (value : Int) : byte '\n' ∉ padded width value := by
  have digit : ∀ value, byte '\n' ∉ digits 10 value := by
    intro value member
    have newline := isDigit_of_mem_digits member
    cases newline
  have filled : ∀ width value, byte '\n' ∉ (digits 10 value).leftpad width (byte '0') := by
    intro width value member
    rcases List.mem_append.1 member with zero | inside
    · cases List.eq_of_mem_replicate zero
    · exact digit value inside
  intro member
  cases value with
  | ofNat n => exact filled width n member
  | negSucc n =>
    rcases List.mem_cons.1 member with sign | inside
    · cases sign
    · exact filled _ _ inside

theorem Date.text_plain (date : Date) : byte '\n' ∉ date.text := by
  simp only [Date.text, List.mem_append, not_or]
  refine ⟨⟨⟨⟨⟨⟨⟨?_, ?_⟩, ?_⟩, ?_⟩, ?_⟩, ?_⟩, ?_⟩, ?_⟩
  all_goals first
    | exact Numeral.padded_plain _ _
    | decide

theorem Header.line_plain {header : Header} (name : header.name.IsWord)
    (free : byte '\n' ∉ header.assembler) : byte '\n' ∉ header.line := by
  have identifier : byte '\n' ∉
      (if header.assembler.isEmpty then standardAssembler else header.assembler) := by
    split
    · decide
    · exact free
  refine joinFields_plain ?_
  simp only [List.forall_mem_cons, List.not_mem_nil, false_implies, implies_true, and_true]
  exact ⟨by decide, name.plain, hexField_plain _, hexField_plain _, hexField_plain _,
    header.date.text_plain, hexField_plain _, hexField_plain _, hexField_plain _, hexField_plain _,
    hexField_plain _, identifier, name.plain⟩

theorem Linking.Fits.plain {record : Linking} (fits : record.Fits) : byte '\n' ∉ record.line := by
  refine joinFields_plain ?_
  simp only [List.forall_mem_cons, List.not_mem_nil, false_implies, implies_true, and_true]
  exact ⟨by decide, fits.entry.plain, hexField_plain _, fits.program.plain⟩

theorem TextRecord.Fits.plain {record : TextRecord} (fits : record.Fits) :
    byte '\n' ∉ record.line := by
  have flag : byte '\n' ∉ record.flag.name := by
    have checked : ∀ flag ∈ Flag.all, byte '\n' ∉ flag.name := by decide
    exact checked _ fits.flag
  have count : byte '\n' ∉ Numeral.digits 16 (record.adjustments % 16).toNat := by
    intro member
    cases Numeral.isAlphanumeric_of_mem_digits member
  refine joinFields_plain ?_
  simp only [List.forall_mem_cons, List.not_mem_nil, false_implies, implies_true, and_true]
  exact ⟨by decide, hexField_plain _, hexField_plain _, flag, count, fits.program.plain⟩

theorem Modification.Fits.plain {record : Modification} (fits : record.Fits) :
    byte '\n' ∉ record.line := by
  have adjustments : ∀ text ∈ record.adjustments.map Adjustment.text, byte '\n' ∉ text := by
    intro text member
    obtain ⟨adjustment, known, rfl⟩ := List.mem_map.1 member
    refine joinFields_plain ?_
    simp only [List.forall_mem_cons, List.not_mem_nil, false_implies, implies_true, and_true]
    refine ⟨?_, (fits.labels adjustment known).plain⟩
    split <;> decide
  have first : ∀ text ∈ [ascii "M", hexField record.location, hexField record.word.toNat],
      byte '\n' ∉ text := by
    simp only [List.forall_mem_cons, List.not_mem_nil, false_implies, implies_true, and_true]
    exact ⟨by decide, hexField_plain _, hexField_plain _⟩
  refine joinFields_plain fun value member => ?_
  rcases List.mem_append.1 member with early | program
  · rcases List.mem_append.1 early with fixed | adjusted
    · exact first value fixed
    · exact adjustments value adjusted
  · rw [List.mem_singleton.1 program]
    exact fits.program.plain

namespace ObjectFile

variable {file : ObjectFile} (fits : file.Fits) (free : byte '\n' ∉ file.header.assembler)
include fits free

theorem records_plain : ∀ record ∈ file.records, byte '\n' ∉ record.line := by
  intro record member
  simp only [records, List.mem_append, List.mem_singleton, List.mem_map] at member
  rcases member with (((rfl | ⟨linking, known, rfl⟩) | ⟨text, known, rfl⟩) |
    ⟨modification, known, rfl⟩) | rfl
  · exact Header.line_plain fits.name free
  · exact (fits.linking linking known).plain
  · exact (fits.text text known).plain
  · exact (fits.modifications modification known).plain
  · refine joinFields_plain ?_
    simp only [List.forall_mem_cons, List.not_mem_nil, false_implies, implies_true, and_true]
    exact ⟨by decide, fits.program.plain⟩

/-- A file that fits its records is read back from its text. -/
theorem decode?_render : Decoder.decode? file.render = some file.contents := by
  have lines : Lines.runs file.render = file.records.map Record.line := by
    refine Lines.runs_ofLines fun line member => ?_
    obtain ⟨record, known, rfl⟩ := List.mem_map.1 member
    exact records_plain fits free record known
  rw [Decoder.decode?, lines, Decoder.contents?_records fits]

end ObjectFile

end WordAssembler

import WordAssembler.Diagnostic.Catalog
import WordAssembler.Proofs.Decoding
import WordAssembler.Proofs.Numerals
import WordAssembler.Proofs.WhiteSpace

/-!
What a catalog text says. A line gives a message if its first word spells a key, of which there are
several spellings; the last line for a key wins, and a line whose first word spells none leaves only
a note. So messages that are written with the standard spelling of their keys are read back, in any
order.
-/

set_option autoImplicit false

namespace WordAssembler

/-! ### Cutting -/

namespace Bytes

variable {separator : UInt8} {text before after : Bytes}

theorem cut?_of_free (free : separator ∉ text) : text.cut? separator = none := by
  have none : text.dropWhile (· != separator) = [] := by
    rw [List.dropWhile_eq_nil_iff]
    rintro b member
    exact bne_iff_ne.2 fun same => free (same ▸ member)
  rw [cut?, none]

theorem cut?_append (free : separator ∉ before) :
    (before ++ separator :: after).cut? separator = some (before, after) := by
  have other : ∀ b ∈ before, (b != separator) = true :=
    fun b member => bne_iff_ne.2 fun same => free (same ▸ member)
  rw [cut?, List.dropWhile_append_of_pos other, List.takeWhile_append_of_pos other,
    List.dropWhile_cons_of_neg (by simp), List.takeWhile_cons_of_neg (by simp), List.append_nil]

/-- A text is cut at the first separator. -/
theorem cut?_eq_some_iff : text.cut? separator = some (before, after) ↔
    separator ∉ before ∧ text = before ++ separator :: after := by
  constructor
  · intro cut
    by_cases member : separator ∈ text
    · obtain ⟨first, later, rfl, free⟩ := List.eq_append_cons_of_mem member
      rw [cut?_append free] at cut
      cases cut
      exact ⟨free, rfl⟩
    · rw [cut?_of_free member] at cut
      cases cut
  · rintro ⟨free, rfl⟩
    exact cut?_append free

end Bytes

/-! ### Keys -/

namespace Key

/-- The key has one of the three severities and a code of 63 bits. -/
structure IsProper (key : Key) : Prop where
  severity : key.severity ∈ Severity.all
  lower : 0 ≤ key.code
  upper : key.code < 2 ^ 63

/-- The word is a spelling of the key: the letters of its severity, a point, and any numeral of its
code, with zeros in front and a sign or without. -/
def Spells (word : Bytes) (key : Key) : Prop :=
  key.IsProper ∧ ∃ numeral, word = key.severity.letters ++ byte '.' :: numeral ∧
    Numeral.Signed numeral key.code

theorem ofLetters?_eq_some_iff {text : Bytes} {severity : Severity} :
    Severity.ofLetters? text = some severity ↔
      severity ∈ Severity.all ∧ text = severity.letters := by
  have distinct : (Severity.all.map Severity.letters).Nodup := by decide
  rw [Severity.ofLetters?, find?_key_eq_some_iff distinct, eq_comm]

theorem readCode?_eq_some_iff {text : Bytes} {code : Int} :
    readCode? text = some code ↔ Numeral.Signed text code ∧ 0 ≤ code ∧ code < 2 ^ 63 := by
  rw [readCode?, Option.filter_eq_some_iff, Numeral.readInteger?_eq_some_iff, decide_eq_true_eq]
  constructor
  · rintro ⟨⟨signed, _, upper⟩, lower⟩
    exact ⟨signed, lower, upper⟩
  · rintro ⟨signed, lower, upper⟩
    exact ⟨⟨signed, by omega, upper⟩, lower⟩

/-- A word is read as the key that it spells. -/
theorem parse?_eq_some_iff {word : Bytes} {key : Key} :
    parse? word = some key ↔ Spells word key := by
  constructor
  · intro read
    unfold parse? at read
    split at read
    · cases read
    · rename_i letters numeral cut
      split at read
      · rename_i severity code named coded
        cases read
        obtain ⟨_, rfl⟩ := Bytes.cut?_eq_some_iff.1 cut
        obtain ⟨listed, rfl⟩ := ofLetters?_eq_some_iff.1 named
        obtain ⟨signed, lower, upper⟩ := readCode?_eq_some_iff.1 coded
        exact ⟨⟨listed, lower, upper⟩, numeral, rfl, signed⟩
      · cases read
  · rintro ⟨⟨listed, lower, upper⟩, numeral, rfl, signed⟩
    have pointless : ∀ severity ∈ Severity.all, byte '.' ∉ severity.letters := by decide
    rw [parse?, Bytes.cut?_append (pointless _ listed)]
    dsimp only
    rw [ofLetters?_eq_some_iff.2 ⟨listed, rfl⟩, readCode?_eq_some_iff.2 ⟨signed, lower, upper⟩]

variable {key : Key}

/-- The written form of a proper key, its code as digits after zeros. -/
theorem IsProper.text_eq (proper : key.IsProper) : ∃ zeros, key.text =
    key.severity.letters ++ byte '.' ::
      (List.replicate zeros (byte '0') ++ Numeral.digits 10 key.code.toNat) := by
  obtain ⟨n, natural⟩ := Int.eq_ofNat_of_zero_le proper.lower
  refine ⟨2 - (Numeral.digits 10 n).length, ?_⟩
  rw [text, natural, List.append_assoc]
  rfl

/-- A proper key is spelled by its written form. -/
theorem spells_text (proper : key.IsProper) : Spells key.text key := by
  obtain ⟨zeros, written⟩ := proper.text_eq
  refine ⟨proper, _, written, ?_⟩
  have value : ((key.code.toNat : Nat) : Int) = key.code := Int.toNat_of_nonneg proper.lower
  rw [← value]
  exact .plain (Numeral.read?_eq_some_iff.1
    (Numeral.read?_replicate_digits (by omega) (by omega) zeros _))

theorem parse?_text (proper : key.IsProper) : parse? key.text = some key :=
  parse?_eq_some_iff.2 (spells_text proper)

/-- The written form of a proper key has no white space, and all its bytes are of ASCII. -/
theorem isGraphic_of_mem_text (proper : key.IsProper) {b : UInt8} (member : b ∈ key.text) :
    Bytes.IsGraphic b := by
  have letters : ∀ severity ∈ Severity.all, ∀ b ∈ severity.letters,
      b.toNat < 128 ∧ isBlank (Bytes.asciiChar b) = false := by decide +kernel
  obtain ⟨zeros, written⟩ := proper.text_eq
  have denotes : Numeral.Denotes 10 (List.replicate zeros (byte '0') ++
      Numeral.digits 10 key.code.toNat) key.code.toNat :=
    Numeral.read?_eq_some_iff.1 (Numeral.read?_replicate_digits (by omega) (by omega) _ _)
  rw [written] at member
  rcases List.mem_append.1 member with letter | later
  · exact letters _ proper.severity b letter
  · rcases List.mem_cons.1 later with rfl | digit
    · exact ⟨by decide, by decide⟩
    · obtain ⟨place, digit, _⟩ := denotes.digit digit
      exact Bytes.isGraphic_of_digitValue? digit

end Key

namespace Catalog

/-! ### A line -/

/-- The text is a first word, up to a space, and what follows that. -/
inductive Opens : Bytes → Bytes → Bytes → Prop
  | alone {word : Bytes} (free : byte ' ' ∉ word) : Opens word word []
  | more {word : Bytes} (free : byte ' ' ∉ word) (rest : Bytes) :
      Opens (word ++ byte ' ' :: rest) word rest

theorem opens_iff {text word rest : Bytes} :
    Opens text word rest ↔ (text.cut? (byte ' ')).getD (text, []) = (word, rest) := by
  constructor
  · intro opens
    cases opens with
    | alone free => rw [Bytes.cut?_of_free free, Option.getD_none]
    | more free rest => rw [Bytes.cut?_append free, Option.getD_some]
  · intro cut
    cases found : text.cut? (byte ' ') with
    | none =>
      rw [found, Option.getD_none] at cut
      cases cut
      refine .alone fun member => ?_
      obtain ⟨first, later, rfl, free⟩ := List.eq_append_cons_of_mem member
      rw [Bytes.cut?_append free] at found
      cases found
    | some parts =>
      rw [found, Option.getD_some] at cut
      subst cut
      obtain ⟨free, rfl⟩ := Bytes.cut?_eq_some_iff.1 found
      exact .more free rest

theorem exists_opens (text : Bytes) : ∃ word rest, Opens text word rest := ⟨_, _, opens_iff.2 rfl⟩

/-- The line gives the key the message: its first word spells the key, and the rest of it, trimmed,
is the message. -/
def Gives (line : Bytes) (key : Key) (message : Bytes) : Prop :=
  ∃ word rest, Opens line.trim word rest ∧ Key.Spells word key ∧ message = rest.trim

/-- The line is not blank, and its first word spells no key. -/
def Strays (line word : Bytes) : Prop :=
  line.trim ≠ [] ∧ (∃ rest, Opens line.trim word rest) ∧ ∀ key, ¬Key.Spells word key

variable {line : Bytes}

theorem readLine_eq_blank_iff : readLine line = .blank ↔ line.trim = [] := by
  unfold readLine
  cases line.trim with
  | nil => simp
  | cons first rest =>
    dsimp only
    split <;> simp

/-- A line that is not blank is read by its first word. -/
theorem readLine_of_opens {word rest : Bytes} (filled : line.trim ≠ [])
    (opens : Opens line.trim word rest) :
    readLine line = (Key.parse? word).elim (.noKey word) (.message · rest.trim) := by
  unfold readLine
  split
  · rename_i blank
    exact absurd blank filled
  · simp only [opens_iff.1 opens]
    cases Key.parse? word with
    | none => rfl
    | some key => rfl

theorem Gives.filled {key : Key} {message : Bytes} (gives : Gives line key message) :
    line.trim ≠ [] := by
  obtain ⟨word, rest, opens, ⟨_, numeral, spelled, _⟩, _⟩ := gives
  intro blank
  rw [blank, opens_iff] at opens
  have empty : [] = word := congrArg Prod.fst opens
  rw [spelled] at empty
  simp at empty

theorem readLine_eq_message_iff {key : Key} {message : Bytes} :
    readLine line = .message key message ↔ Gives line key message := by
  constructor
  · intro read
    by_cases blank : line.trim = []
    · rw [readLine_eq_blank_iff.2 blank] at read
      cases read
    · obtain ⟨word, rest, opens⟩ := exists_opens line.trim
      rw [readLine_of_opens blank opens] at read
      cases parsed : Key.parse? word with
      | none =>
        rw [parsed] at read
        cases read
      | some found =>
        rw [parsed] at read
        cases read
        exact ⟨word, rest, opens, Key.parse?_eq_some_iff.1 parsed, rfl⟩
  · intro gives
    have filled := gives.filled
    obtain ⟨word, rest, opens, spells, rfl⟩ := gives
    rw [readLine_of_opens filled opens, Key.parse?_eq_some_iff.2 spells, Option.elim_some]

theorem readLine_eq_noKey_iff {word : Bytes} : readLine line = .noKey word ↔ Strays line word := by
  constructor
  · intro read
    by_cases blank : line.trim = []
    · rw [readLine_eq_blank_iff.2 blank] at read
      cases read
    · obtain ⟨first, rest, opens⟩ := exists_opens line.trim
      rw [readLine_of_opens blank opens] at read
      cases parsed : Key.parse? first with
      | none =>
        rw [parsed] at read
        cases read
        refine ⟨blank, ⟨rest, opens⟩, fun key spells => ?_⟩
        rw [Key.parse?_eq_some_iff.2 spells] at parsed
        cases parsed
      | some found =>
        rw [parsed] at read
        cases read
  · rintro ⟨filled, ⟨rest, opens⟩, unspelled⟩
    have unparsed : Key.parse? word = none := by
      rw [Option.eq_none_iff_forall_ne_some]
      exact fun key parsed => unspelled key (Key.parse?_eq_some_iff.1 parsed)
    rw [readLine_of_opens filled opens, unparsed, Option.elim_none]

/-! ### The lines of a text -/

/-- The message that a line gives, with its key, if it gives one. -/
def given? (line : Bytes) : Option (Key × Bytes) :=
  match readLine line with
  | .message key message => some (key, message)
  | _ => none

/-- The first word of a numbered line that strays, with the number. -/
def stray? (numbered : Bytes × Nat) : Option (Nat × Bytes) :=
  match readLine numbered.1 with
  | .noKey word => some (numbered.2, word)
  | _ => none

theorem given?_eq_some_iff {key : Key} {message : Bytes} :
    given? line = some (key, message) ↔ Gives line key message := by
  rw [← readLine_eq_message_iff, given?]
  cases readLine line with
  | blank => simp
  | message other text => simp
  | noKey word => simp

theorem stray?_eq_some_iff {number found : Nat} {word : Bytes} :
    stray? (line, number) = some (found, word) ↔ number = found ∧ Strays line word := by
  rw [← readLine_eq_noKey_iff, stray?]
  cases readLine line with
  | blank => simp
  | message other text => simp
  | noKey word => simp

theorem given?_of_strays {word : Bytes} (strays : Strays line word) : given? line = none := by
  rw [given?, readLine_eq_noKey_iff.2 strays]

def insertAll (catalog : Catalog) (entries : List (Key × Bytes)) : Catalog :=
  entries.foldl (fun catalog entry => catalog.insert entry.1 entry.2) catalog

def catalogOf (lines : List Bytes) : Catalog := empty.insertAll (lines.filterMap given?)

/-- What strays in lines that are numbered from some number on. -/
def strays (start : Nat) (lines : List Bytes) : List (Nat × Bytes) :=
  (lines.zipIdx start).filterMap stray?

theorem strays_cons (start : Nat) (line : Bytes) (rest : List Bytes) :
    strays start (line :: rest) = (stray? (line, start)).toList ++ strays (start + 1) rest := by
  rw [strays, List.zipIdx_cons, List.filterMap_cons]
  cases stray? (line, start) with
  | none => rfl
  | some found => rfl

/-- Lines that stray are noted one after another, and the others are set. -/
theorem foldl_add (lines : List Bytes) (start : Nat) (reading : Reading) :
    (lines.zipIdx start).foldl Reading.add reading =
      ⟨reading.catalog.insertAll (lines.filterMap given?),
        ((strays start lines).map fun found => skippedNote found.1 found.2).reverse ++
          reading.notes⟩ := by
  induction lines generalizing start reading with
  | nil => rfl
  | cons line rest ih =>
    rw [List.zipIdx_cons, List.foldl_cons, ih, strays_cons, List.filterMap_cons, given?, stray?,
      Reading.add]
    dsimp only
    cases readLine line with
    | blank => rfl
    | message key message => rfl
    | noKey word => simp

/-- The note on a line has the number of the line and its first word. -/
theorem skippedNote_eq (number : Nat) (word : Bytes) : skippedNote number word =
    ascii "diag: line " ++ ascii (toString number) ++ ascii ": improper error code '" ++ word ++
      ascii "', skipped" := by
  rw [skippedNote, Numeral.decimal_natCast]

/-- A catalog text is read as the catalog that its lines make, with a note on each that strays. -/
theorem parse_eq {text : Bytes} (short : (Lines.read text).tooLong = false) : parse text =
    (some (catalogOf (Lines.read text).lines), (strays 1 (Lines.read text).lines).map fun found =>
      ascii "diag: line " ++ ascii (toString found.1) ++ ascii ": improper error code '" ++
        found.2 ++ ascii "', skipped") := by
  simp only [parse, short, foldl_add, List.append_nil, List.reverse_reverse, skippedNote_eq]
  rfl

/-- The lines that stray are noted with their number. -/
theorem mem_strays {start number : Nat} {lines : List Bytes} {word : Bytes} :
    (number, word) ∈ strays start lines ↔
      start ≤ number ∧ ∃ line, lines[number - start]? = some line ∧ Strays line word := by
  rw [strays, List.mem_filterMap]
  constructor
  · rintro ⟨⟨line, found⟩, member, same⟩
    obtain ⟨rfl, strays⟩ := stray?_eq_some_iff.1 same
    obtain ⟨after, place⟩ := List.mem_zipIdx_iff_le_and_getElem?_sub.1 member
    exact ⟨after, line, place, strays⟩
  · rintro ⟨after, line, place, strays⟩
    exact ⟨(line, number), List.mem_zipIdx_iff_le_and_getElem?_sub.2 ⟨after, place⟩,
      stray?_eq_some_iff.2 ⟨rfl, strays⟩⟩

/-- No line is noted twice, and the notes have the order of the lines. -/
theorem strays_increasing (start : Nat) (lines : List Bytes) :
    (strays start lines).Pairwise (·.1 < ·.1) := by
  induction lines generalizing start with
  | nil => exact List.Pairwise.nil
  | cons line rest ih =>
    rw [strays_cons, List.pairwise_append]
    refine ⟨?_, ih (start + 1), ?_⟩
    · cases stray? (line, start) with
      | none => exact List.Pairwise.nil
      | some found => exact List.pairwise_singleton _ _
    · rintro ⟨first, word⟩ here ⟨later, other⟩ there
      obtain ⟨rfl, _⟩ := stray?_eq_some_iff.1 (Option.mem_toList.1 here)
      exact (mem_strays.1 there).1

/-! ### What a catalog holds -/

theorem message?_insert (catalog : Catalog) (key other : Key) (message : Bytes) :
    (catalog.insert key message).message? other =
      if key = other then some message else catalog.message? other := by
  rw [message?, message?, insert]
  by_cases same : key = other
  · rw [if_pos same, List.find?_cons_of_pos (by simpa using same)]
    rfl
  · rw [if_neg same, List.find?_cons_of_neg (by simpa using same), List.find?_filter]
    have untouched : ∀ entry : Key × Bytes,
        decide ((entry.1 != key) = true ∧ (entry.1 == other) = true) = (entry.1 == other) := by
      intro entry
      by_cases found : entry.1 = other
      · simp [found, Ne.symm same]
      · simp [found]
    rw [funext untouched]

variable {before after lines : List Bytes} {key : Key} {message : Bytes}

theorem catalogOf_append_singleton : catalogOf (before ++ [line]) =
    match given? line with
    | some (key, message) => (catalogOf before).insert key message
    | none => catalogOf before := by
  rw [catalogOf, catalogOf, List.filterMap_append, insertAll, List.foldl_append,
    List.filterMap_cons, List.filterMap_nil]
  cases given? line with
  | none => rfl
  | some entry => rfl

theorem message?_of_gives (gives : Gives line key message) :
    (catalogOf (before ++ [line])).message? key = some message := by
  rw [catalogOf_append_singleton, given?_eq_some_iff.2 gives]
  exact (message?_insert _ _ _ _).trans (if_pos rfl)

/-- Lines for other keys leave a message as it is. -/
theorem message?_append (silent : ∀ line ∈ after, ∀ message, ¬Gives line key message) :
    (catalogOf (before ++ after)).message? key = (catalogOf before).message? key := by
  induction after using List.reverseRecOn with
  | nil => rw [List.append_nil]
  | append_singleton after line ih =>
    rw [List.forall_mem_append, List.forall_mem_singleton] at silent
    rw [← List.append_assoc, catalogOf_append_singleton]
    cases given : given? line with
    | none => exact ih silent.1
    | some entry =>
      obtain ⟨other, text⟩ := entry
      have elsewhere : other ≠ key := by
        rintro rfl
        exact silent.2 text (given?_eq_some_iff.1 given)
      dsimp only
      rw [message?_insert, if_neg elsewhere]
      exact ih silent.1

/-- A line gives a key its message, and none after it gives the key another. -/
def GivesLast (lines : List Bytes) (key : Key) (message : Bytes) : Prop :=
  ∃ before line after, lines = before ++ line :: after ∧ Gives line key message ∧
    ∀ later ∈ after, ∀ other, ¬Gives later key other

theorem message?_of_givesLast (holds : GivesLast lines key message) :
    (catalogOf lines).message? key = some message := by
  obtain ⟨before, line, after, rfl, gives, silent⟩ := holds
  rw [← List.singleton_append, ← List.append_assoc, message?_append silent, message?_of_gives gives]

theorem message?_of_silent (silent : ∀ line ∈ lines, ∀ message, ¬Gives line key message) :
    (catalogOf lines).message? key = none := by
  have kept : (catalogOf ([] ++ lines)).message? key = (catalogOf []).message? key :=
    message?_append silent
  exact kept

/-- A key has a last line that gives it a message, or none. -/
theorem silent_or_givesLast (lines : List Bytes) (key : Key) :
    (∀ line ∈ lines, ∀ message, ¬Gives line key message) ∨
      ∃ message, GivesLast lines key message := by
  induction lines using List.reverseRecOn with
  | nil => exact .inl nofun
  | append_singleton before line ih =>
    by_cases here : ∃ message, Gives line key message
    · obtain ⟨message, gives⟩ := here
      exact .inr ⟨message, before, line, [], rfl, gives, nofun⟩
    · have last : ∀ message, ¬Gives line key message := by simpa using here
      rcases ih with silent | ⟨message, first, other, after, rfl, gives, silent⟩
      · refine .inl ?_
        rw [List.forall_mem_append, List.forall_mem_singleton]
        exact ⟨silent, last⟩
      · refine .inr ⟨message, first, other, after ++ [line], by simp, gives, ?_⟩
        rw [List.forall_mem_append, List.forall_mem_singleton]
        exact ⟨silent, last⟩

/-- The message of a key is that of the last line for it. -/
theorem message?_eq_some_iff :
    (catalogOf lines).message? key = some message ↔ GivesLast lines key message := by
  constructor
  · intro found
    rcases silent_or_givesLast lines key with silent | ⟨other, holds⟩
    · rw [message?_of_silent silent] at found
      cases found
    · rw [message?_of_givesLast holds] at found
      cases found
      exact holds
  · exact message?_of_givesLast

theorem message?_eq_none_iff : (catalogOf lines).message? key = none ↔
    ∀ line ∈ lines, ∀ message, ¬Gives line key message := by
  constructor
  · intro missing
    rcases silent_or_givesLast lines key with silent | ⟨other, holds⟩
    · exact silent
    · rw [message?_of_givesLast holds] at missing
      cases missing
  · exact message?_of_silent

/-- A line that strays leaves the catalog as it is. -/
theorem catalogOf_of_strays {word : Bytes} (strays : Strays line word) :
    catalogOf (before ++ line :: after) = catalogOf (before ++ after) := by
  rw [catalogOf, catalogOf, List.filterMap_append, List.filterMap_append, List.filterMap_cons,
    given?_of_strays strays]

/-! ### Written messages -/

/-- The line of a message in a catalog text. -/
def written (key : Key) (message : Bytes) : Bytes := key.text ++ byte ' ' :: message

/-- A message of a catalog can be written: its key is proper, the message is trimmed and has no line
feed, and the line is not too long. -/
structure IsWritable (key : Key) (message : Bytes) : Prop where
  proper : key.IsProper
  trimmed : message.IsTrim
  plain : byte '\n' ∉ message
  fits : Lines.fits (written key message) = true

section Written

variable {key : Key} {message : Bytes}

theorem space_not_mem_text (proper : key.IsProper) : byte ' ' ∉ key.text := by
  intro member
  have graphic := (Key.isGraphic_of_mem_text proper member).2
  exact absurd graphic (by decide)

/-- The glyphs of a written line start with a byte of its key. -/
theorem decode_written (proper : key.IsProper) (message : Bytes) : ∃ first front,
    Utf8.decode (written key message) = first :: front ++ Utf8.decode message ∧
      first.isBlank = false := by
  obtain ⟨b, rest, text⟩ : ∃ b rest, key.text = b :: rest := by
    obtain ⟨zeros, spelled⟩ := proper.text_eq
    rw [spelled]
    exact List.exists_cons_of_ne_nil (by simp)
  have graphic : ∀ b ∈ key.text, Bytes.IsGraphic b := fun b => Key.isGraphic_of_mem_text proper
  have spelled : written key message =
      Utf8.encode (key.text.map Bytes.asciiChar ++ [' ']) ++ message := by
    have space : Utf8.encode [' '] = [byte ' '] := by decide
    rw [Utf8.encode, List.flatMap_append, ← Utf8.encode, ← Utf8.encode, space,
      Bytes.encode_asciiChar fun b member => (graphic b member).1, List.append_assoc]
    rfl
  refine ⟨.char (Bytes.asciiChar b), (rest.map Bytes.asciiChar ++ [' ']).map .char, ?_,
    (graphic b (text ▸ List.mem_cons_self)).2⟩
  rw [spelled, Utf8.decode_encode_append, text]
  rfl

/-- A written line is trimmed, but for the space that an empty message leaves at its end. -/
theorem trim_written (proper : key.IsProper) (trimmed : message.IsTrim) :
    (written key message).trim = if message = [] then key.text else written key message := by
  by_cases empty : message = []
  · subst empty
    have blank : Bytes.IsBlank [byte ' '] := ⟨[' '], List.forall_mem_singleton.2 rfl, rfl⟩
    have none : Bytes.IsBlank [] := ⟨[], nofun, rfl⟩
    have around : written key [] = [] ++ (key.text ++ [byte ' ']) := rfl
    rw [if_pos rfl, around]
    exact Bytes.trim_padded none (fun b => Key.isGraphic_of_mem_text proper) blank
  · obtain ⟨first, front, decoded, solid⟩ := decode_written proper message
    rw [if_neg empty]
    exact Bytes.isTrim_append decoded solid empty trimmed

/-- A written line gives its message. -/
theorem gives_written (writable : IsWritable key message) :
    Gives (written key message) key message := by
  have free := space_not_mem_text writable.proper
  have spells := Key.spells_text writable.proper
  have trimmed := trim_written writable.proper writable.trimmed
  by_cases empty : message = []
  · have opens : Opens (written key message).trim key.text [] := by
      rw [trimmed, if_pos empty]
      exact .alone free
    exact ⟨key.text, [], opens, spells, empty⟩
  · have opens : Opens (written key message).trim key.text message := by
      rw [trimmed, if_neg empty]
      exact .more free message
    exact ⟨key.text, message, opens, spells, writable.trimmed.symm⟩

/-- A written line has no line feed, and no carriage return at its end. -/
theorem plain_written (writable : IsWritable key message) : byte '\n' ∉ written key message := by
  intro member
  rcases List.mem_append.1 member with inKey | later
  · have graphic := (Key.isGraphic_of_mem_text writable.proper inKey).2
    exact absurd graphic (by decide)
  · rcases List.mem_cons.1 later with space | inMessage
    · exact absurd space (by decide)
    · exact writable.plain inMessage

/-- What is trimmed does not end with a carriage return. -/
theorem not_return_of_isTrim (trimmed : message.IsTrim) : message.getLast? ≠ some (byte '\r') := by
  intro last
  obtain ⟨front, rfl⟩ := List.getLast?_eq_some_iff.1 last
  have glyphs : Utf8.decode (front ++ [byte '\r']) = Utf8.decode front ++ [.char '\r'] :=
    Utf8.decode_append front (by decide)
  have solid := (Bytes.isTrim_iff.1 trimmed).2
  rw [glyphs, List.getLast?_concat] at solid
  exact absurd solid (by decide)

theorem dropReturn_written (writable : IsWritable key message) :
    Lines.dropReturn (written key message) = written key message := by
  have last : (written key message).getLast? ≠ some (byte '\r') := by
    by_cases empty : message = []
    · rw [empty, written, List.getLast?_concat]
      decide
    · rw [written, List.getLast?_append_of_ne_nil _ (List.cons_ne_nil _ _),
        List.getLast?_cons_of_ne_nil empty]
      exact not_return_of_isTrim writable.trimmed
  rw [Lines.dropReturn, if_neg last]

end Written

/-- Written lines are read as they are. -/
theorem read_written {messages : List (Key × Bytes)}
    (writable : ∀ entry ∈ messages, IsWritable entry.1 entry.2) :
    Lines.read (ofLines (messages.map fun entry => written entry.1 entry.2)) =
      ⟨messages.map fun entry => written entry.1 entry.2, false⟩ := by
  have plain : ∀ line ∈ messages.map fun entry => written entry.1 entry.2, byte '\n' ∉ line :=
    List.forall_mem_map.2 fun entry member => plain_written (writable entry member)
  have fits : ∀ line ∈ messages.map fun entry => written entry.1 entry.2, Lines.fits line = true :=
    List.forall_mem_map.2 fun entry member => (writable entry member).fits
  have kept : ∀ line ∈ messages.map fun entry => written entry.1 entry.2,
      Lines.dropReturn line = line :=
    List.forall_mem_map.2 fun entry member => dropReturn_written (writable entry member)
  rw [Lines.read, Lines.runs_ofLines plain, List.takeWhile_eq_self_iff.2 fits,
    List.all_eq_true.2 fits, List.map_congr_left kept, List.map_id']
  rfl

/-- New keys are put in front of the old ones. -/
theorem messages_insertAll {entries : List (Key × Bytes)} {catalog : Catalog}
    (distinct : (entries.map Prod.fst).Nodup)
    (fresh : ∀ entry ∈ entries, ∀ old ∈ catalog.messages, old.1 ≠ entry.1) :
    (catalog.insertAll entries).messages = entries.reverse ++ catalog.messages := by
  induction entries generalizing catalog with
  | nil => rfl
  | cons entry rest ih =>
    obtain ⟨new, later⟩ := List.nodup_cons.1 distinct
    obtain ⟨first, others⟩ := List.forall_mem_cons.1 fresh
    have inserted : (catalog.insert entry.1 entry.2).messages = entry :: catalog.messages := by
      have kept : catalog.messages.filter (·.1 != entry.1) = catalog.messages :=
        List.filter_eq_self.2 fun old member => bne_iff_ne.2 (first old member)
      rw [insert, kept]
    have apart : ∀ other ∈ rest, ∀ old ∈ (catalog.insert entry.1 entry.2).messages,
        old.1 ≠ other.1 := by
      rw [inserted]
      intro other member
      refine List.forall_mem_cons.2 ⟨fun same => new ?_, others other member⟩
      rw [same]
      exact List.mem_map_of_mem member
    rw [insertAll, List.foldl_cons]
    change ((catalog.insert entry.1 entry.2).insertAll rest).messages = _
    rw [ih later apart, inserted]
    simp

/-- With distinct keys the messages of a catalog are those that it lists. -/
theorem message?_eq_some_iff_mem {catalog : Catalog} {key : Key} {message : Bytes}
    (distinct : (catalog.messages.map Prod.fst).Nodup) :
    catalog.message? key = some message ↔ (key, message) ∈ catalog.messages := by
  rw [message?, Option.map_eq_some_iff]
  simp only [find?_key_eq_some_iff distinct]
  constructor
  · rintro ⟨entry, ⟨member, rfl⟩, rfl⟩
    exact member
  · intro member
    exact ⟨(key, message), ⟨member, rfl⟩, rfl⟩

/-- Written messages are read back, each of them and nothing else. -/
theorem parse_written {messages : List (Key × Bytes)} (distinct : (messages.map Prod.fst).Nodup)
    (writable : ∀ entry ∈ messages, IsWritable entry.1 entry.2) :
    parse (ofLines (messages.map fun entry => written entry.1 entry.2)) =
      (some ⟨messages.reverse⟩, []) := by
  have read := read_written writable
  have short : (Lines.read (ofLines (messages.map fun entry => written entry.1 entry.2))).tooLong =
      false := by rw [read]
  have given : ∀ entry ∈ messages, given? (written entry.1 entry.2) = some entry :=
    fun entry member => given?_eq_some_iff.2 (gives_written (writable entry member))
  have entries :
      (messages.map fun entry => written entry.1 entry.2).filterMap given? = messages := by
    rw [List.filterMap_map, List.filterMap_congr (f := given? ∘ _) given, List.filterMap_some]
  have unstrayed : strays 1 (messages.map fun entry => written entry.1 entry.2) = [] := by
    rw [List.eq_nil_iff_forall_not_mem]
    rintro ⟨number, word⟩ member
    obtain ⟨_, line, place, strays⟩ := mem_strays.1 member
    obtain ⟨entry, inside, rfl⟩ := List.mem_map.1 (List.mem_of_getElem? place)
    have silent := given?_of_strays strays
    rw [given entry inside] at silent
    cases silent
  have listed : (empty.insertAll messages).messages = messages.reverse ++ empty.messages :=
    messages_insertAll distinct fun _ _ _ none => nomatch none
  have gathered : empty.insertAll messages = ⟨messages.reverse⟩ :=
    congrArg Catalog.mk (listed.trans (List.append_nil _))
  rw [parse_eq short, read, unstrayed, catalogOf, entries, gathered, List.map_nil]

/-- Keys are read from their spellings, of which the written form is one. A catalog text gives a key
the message of the last line for it, and a line whose first word is no key changes nothing and is
noted once, with its number and the word. Messages that can be written are read back, in any
order. -/
theorem reading_exact :
    (∀ severity ∈ Severity.all, ∀ code : Int, 0 ≤ code → code < 2 ^ 63 →
      Key.parse? (Key.text ⟨severity, code⟩) = some ⟨severity, code⟩) ∧
    (∀ word key, Key.parse? word = some key ↔ Key.Spells word key) ∧
    (∀ text, (Lines.read text).tooLong = false →
      ∃ (catalog : Catalog) (skipped : List (Nat × Bytes)),
      parse text = (some catalog, skipped.map fun found =>
        ascii "diag: line " ++ ascii (toString found.1) ++ ascii ": improper error code '" ++
          found.2 ++ ascii "', skipped") ∧
      (∀ key diagnostic, catalog.get? key = some diagnostic ↔
        ∃ message, GivesLast (Lines.read text).lines key message ∧ diagnostic = ⟨key, message⟩) ∧
      (∀ key, catalog.get? key = none ↔
        ∀ line ∈ (Lines.read text).lines, ∀ message, ¬Gives line key message) ∧
      skipped.Pairwise (·.1 < ·.1) ∧
      (∀ number word, (number, word) ∈ skipped ↔
        1 ≤ number ∧ ∃ line, (Lines.read text).lines[number - 1]? = some line ∧ Strays line word) ∧
      (∀ before line after word other, (Lines.read text).lines = before ++ line :: after →
        Strays line word → (Lines.read other).tooLong = false →
          (Lines.read other).lines = before ++ after → (parse other).1 = some catalog)) ∧
    (∀ messages order : List (Key × Bytes), (messages.map Prod.fst).Nodup →
      (∀ entry ∈ messages, IsWritable entry.1 entry.2) → order.Perm messages →
        ∃ catalog, parse (ofLines (order.map fun entry => written entry.1 entry.2)) =
            (some catalog, []) ∧
          catalog.messages.Perm messages ∧
          ∀ key message, catalog.message? key = some message ↔ (key, message) ∈ messages) := by
  refine ⟨?_, fun word key => Key.parse?_eq_some_iff, ?_, ?_⟩
  · intro severity listed code lower upper
    exact Key.parse?_text ⟨listed, lower, upper⟩
  · intro text short
    refine ⟨_, _, parse_eq short, ?_, ?_, strays_increasing _ _, fun number word => mem_strays, ?_⟩
    · intro key diagnostic
      rw [get?, Option.map_eq_some_iff]
      simp only [message?_eq_some_iff, @eq_comm _ diagnostic]
    · intro key
      rw [get?, Option.map_eq_none_iff, message?_eq_none_iff]
    · intro before line after word other lines strays shortOther linesOther
      rw [parse_eq shortOther, linesOther, lines, catalogOf_of_strays strays]
  · intro messages order distinct writable same
    have distinctOrder := ((same.map Prod.fst).nodup_iff).2 distinct
    have writableOrder : ∀ entry ∈ order, IsWritable entry.1 entry.2 :=
      fun entry member => writable entry (same.mem_iff.1 member)
    have reversed := order.reverse_perm.trans same
    refine ⟨_, parse_written distinctOrder writableOrder, reversed, fun key message => ?_⟩
    have distinctRead := ((reversed.map Prod.fst).nodup_iff).2 distinct
    exact (message?_eq_some_iff_mem distinctRead).trans reversed.mem_iff

/-- Two messages for one key under two spellings, a blank line, and a line that is no message. -/
def overridden : Bytes := ascii "ES.17 old\n\nnote to self\n\tES.+017  new \n"

/-- The later message replaces the earlier one, and messages are read back in another order than
they were listed in. -/
theorem reading_exact_overridden :
    Key.parse? (Key.text ⟨.warning, 5⟩) = some ⟨.warning, 5⟩ ∧
    (Lines.read overridden).tooLong = false ∧
    (parse overridden).2 = [ascii "diag: line 3: improper error code 'note', skipped"] ∧
    (parse overridden).1.bind (·.get? ⟨.serious, 17⟩) = some ⟨⟨.serious, 17⟩, ascii "new"⟩ ∧
    (parse (ofLines [written ⟨.serious, 17⟩ (ascii "new"), written ⟨.fatal, 100⟩ []])).1.bind
      (·.message? ⟨.fatal, 100⟩) = some [] := by
  have short : (Lines.read overridden).tooLong = false := by decide +kernel
  have lines : (Lines.read overridden).lines =
      [ascii "ES.17 old", [], ascii "note to self", ascii "\tES.+017  new "] := by decide +kernel
  have strayed : (parse overridden).2 =
      [ascii "diag: line 3: improper error code 'note', skipped"] := by decide +kernel
  obtain ⟨keys, _, reads, restores⟩ := reading_exact
  refine ⟨keys .warning (by decide) 5 (by decide) (by decide), short, strayed, ?_, ?_⟩
  · obtain ⟨catalog, skipped, read, found, _⟩ := reads overridden short
    have last : GivesLast (Lines.read overridden).lines ⟨.serious, 17⟩ (ascii "new") :=
      ⟨[ascii "ES.17 old", [], ascii "note to self"], ascii "\tES.+017  new ", [], lines,
        readLine_eq_message_iff.1 (by decide +kernel), nofun⟩
    rw [read]
    exact (found _ _).2 ⟨_, last, rfl⟩
  · have writable : ∀ entry ∈
        [((⟨.fatal, 100⟩ : Key), ([] : Bytes)), (⟨.serious, 17⟩, ascii "new")],
        IsWritable entry.1 entry.2 := by
      rw [List.forall_mem_cons, List.forall_mem_singleton]
      exact ⟨⟨⟨by decide, by decide, by decide⟩, by decide +kernel, by decide, by decide +kernel⟩,
        ⟨⟨by decide, by decide, by decide⟩, by decide +kernel, by decide, by decide +kernel⟩⟩
    obtain ⟨catalog, read, _, found⟩ := restores _
      [(⟨.serious, 17⟩, ascii "new"), (⟨.fatal, 100⟩, [])] (by decide) writable (List.Perm.swap _ _ _)
    rw [List.map_cons, List.map_cons, List.map_nil] at read
    rw [read]
    exact (found _ _).2 List.mem_cons_self

end Catalog

end WordAssembler

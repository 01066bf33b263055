import Mathlib.Data.List.DropRight
import WordAssembler.Proofs.Alternation
import WordAssembler.Proofs.Literals

/-!
Words between white space. A text is decoded glyph by glyph, so it comes apart where a glyph ends,
whatever bytes stand around it: white space is found in a text as it is written there, and the
fields of a text are exactly the words that stand between white space.
-/

set_option autoImplicit false

namespace WordAssembler

namespace Utf8

/-! ### Decoding part by part -/

/-- Decoding goes on after what is skipped, whatever was read before. -/
theorem decodeFrom_eq (skip : Nat) (read : List Glyph) (text : Bytes) :
    decodeFrom skip read text = read.reverse ++ decode (text.drop skip) := by
  induction text generalizing skip read with
  | nil =>
    rw [List.drop_nil]
    exact (List.append_nil _).symm
  | cons b rest ih =>
    cases skip with
    | succ skip => exact ih skip read
    | zero =>
      rw [List.drop_zero, decode, decodeFrom, decodeFrom]
      cases leading? b rest with
      | some c =>
        dsimp only
        rw [ih, ih]
        simp
      | none =>
        dsimp only
        rw [ih, ih]
        simp

theorem decode_cons (b : UInt8) (rest : Bytes) : decode (b :: rest) =
    match leading? b rest with
    | some c => .char c :: decode (rest.drop (following b))
    | none => .stray b :: decode rest := by
  rw [decode, decodeFrom]
  cases leading? b rest with
  | some c => exact decodeFrom_eq (following b) [.char c] rest
  | none => exact decodeFrom_eq 0 [.stray b] rest

/-- A character in front is decoded by itself. -/
theorem decode_encodeChar_append (c : Char) (rest : Bytes) :
    decode (encodeChar c ++ rest) = .char c :: decode rest := by
  obtain ⟨lead, tail, bytes, count, found⟩ := leading?_encodeChar c rest
  rw [bytes, List.cons_append, decode_cons, found]
  dsimp only
  rw [count, List.drop_left]

theorem decode_encode_append (chars : List Char) (rest : Bytes) :
    decode (encode chars ++ rest) = chars.map .char ++ decode rest := by
  induction chars with
  | nil => rfl
  | cons c chars ih =>
    rw [encode, List.flatMap_cons, List.append_assoc, decode_encodeChar_append]
    exact congrArg _ ih

/-- A character that is read from a text takes up all its bytes there. -/
theorem following_le {lead : UInt8} {rest : Bytes} {c : Char}
    (found : leading? lead rest = some c) : following lead ≤ rest.length := by
  obtain ⟨first, tail, bytes, count, _⟩ := leading?_encodeChar c []
  rw [encodeChar_of_leading? found] at bytes
  obtain ⟨rfl, taken⟩ := List.cons.inj bytes
  have length := congrArg List.length taken
  rw [List.length_take] at length
  omega

/-- What follows a character does not change it. -/
theorem leading?_append {lead : UInt8} {rest : Bytes} {c : Char}
    (found : leading? lead rest = some c) (more : Bytes) :
    leading? lead (rest ++ more) = some c := by
  have inside := following_le found
  unfold leading? at found ⊢
  dsimp only at found ⊢
  rwa [List.take_append_of_le_length inside]

/-- A byte that goes on with a character that another byte started. -/
def isContinuation (b : UInt8) : Bool := b.toNat / 64 == 2

/-- After its first byte a character has only bytes that go on with it. -/
theorem isContinuation_of_mem {c : Char} {lead b : UInt8} {tail : Bytes}
    (bytes : encodeChar c = lead :: tail) (member : b ∈ tail) : isContinuation b = true := by
  have go : ∀ bits : Nat, isContinuation (UInt8.ofNat (bits % 64 + 0x80)) = true := by
    intro bits
    have value : (UInt8.ofNat (bits % 64 + 0x80)).toNat = bits % 64 + 0x80 := by
      rw [UInt8.toNat_ofNat']
      omega
    rw [isContinuation, value, beq_iff_eq]
    omega
  have written := encodeChar_eq c
  rw [bytes] at written
  split at written
  · cases written
    cases member
  · split at written
    · cases written
      rw [List.mem_singleton.1 member]
      exact go _
    · split at written
      · cases written
        rcases List.mem_cons.1 member with rfl | last
        · exact go _
        · rw [List.mem_singleton.1 last]
          exact go _
      · cases written
        rcases List.mem_cons.1 member with rfl | later
        · exact go _
        · rcases List.mem_cons.1 later with rfl | last
          · exact go _
          · rw [List.mem_singleton.1 last]
            exact go _

/-- A character that starts in a text does not go on in what starts a glyph. -/
theorem leading?_of_append {lead : UInt8} {rest more : Bytes} {c : Char}
    (starts : more.head?.all (!isContinuation ·) = true)
    (found : leading? lead (rest ++ more) = some c) : leading? lead rest = some c := by
  by_cases inside : following lead ≤ rest.length
  · unfold leading? at found ⊢
    dsimp only at found ⊢
    rwa [List.take_append_of_le_length inside] at found
  · have bytes := encodeChar_of_leading? found
    cases more with
    | nil =>
      have bound := following_le found
      rw [List.append_nil] at bound
      exact absurd bound inside
    | cons b more =>
      have member : b ∈ (rest ++ b :: more).take (following lead) := by
        rw [List.take_append, List.mem_append]
        refine Or.inr ?_
        have positive : following lead - rest.length = following lead - rest.length - 1 + 1 := by
          omega
        rw [positive, List.take_succ_cons]
        exact List.mem_cons_self
      have goes := isContinuation_of_mem bytes member
      simp [goes] at starts

/-- A text comes apart before a byte that starts a glyph. -/
theorem decode_append (text : Bytes) {more : Bytes}
    (starts : more.head?.all (!isContinuation ·) = true) :
    decode (text ++ more) = decode text ++ decode more := by
  induction size : text.length using Nat.strong_induction_on generalizing text with
  | h size ih =>
    subst size
    cases text with
    | nil => rfl
    | cons b rest =>
      rw [List.cons_append, decode_cons, decode_cons]
      cases found : leading? b rest with
      | some c =>
        have shorter : (rest.drop (following b)).length < (b :: rest).length := by
          rw [List.length_drop, List.length_cons]
          omega
        rw [leading?_append found]
        dsimp only
        rw [List.drop_append_of_le_length (following_le found), ih _ shorter _ rfl]
        rfl
      | none =>
        have apart : leading? b (rest ++ more) = none := by
          cases longer : leading? b (rest ++ more) with
          | none => rfl
          | some c =>
            rw [leading?_of_append starts longer] at found
            cases found
        rw [apart]
        dsimp only
        rw [ih rest.length (by simp) rest rfl]
        rfl

/-- The bytes of a character start a glyph. -/
theorem starts_encodeChar (c : Char) (rest : Bytes) :
    (encodeChar c ++ rest).head?.all (!isContinuation ·) = true := by
  have lead : ∀ n < 256, n / 64 ≠ 2 → ∀ tail : Bytes,
      (UInt8.ofNat n :: tail).head?.all (!isContinuation ·) = true := by
    intro n small other tail
    rw [List.head?_cons, Option.all_some, isContinuation, UInt8.toNat_ofNat',
      Nat.mod_eq_of_lt small]
    simpa using other
  have bound : c.toNat < 0x110000 := by
    have valid := c.valid
    unfold UInt32.isValidChar Nat.isValidChar at valid
    change c.val.toNat < 0x110000
    omega
  rw [encodeChar_eq]
  split
  · exact lead _ (by omega) (by omega) _
  · split
    · exact lead _ (by omega) (by omega) _
    · split
      · exact lead _ (by omega) (by omega) _
      · exact lead _ (by omega) (by omega) _

/-- The parts of what was decoded are decoded like that by themselves. -/
theorem decode_of_parts {text : Bytes} {first later : List Glyph}
    (parts : decode text = first ++ later) :
    decode (Bytes.ofGlyphs first) = first ∧ decode (Bytes.ofGlyphs later) = later := by
  induction first generalizing text with
  | nil =>
    rw [List.nil_append] at parts
    rw [← parts, Bytes.ofGlyphs, Bytes.ofGlyphs, bytes_decode]
    exact ⟨rfl, rfl⟩
  | cons glyph first ih =>
    cases text with
    | nil => cases parts
    | cons b rest =>
      rw [decode_cons] at parts
      cases found : leading? b rest with
      | some c =>
        rw [found] at parts
        obtain ⟨rfl, rest_parts⟩ := List.cons.inj parts
        obtain ⟨front, back⟩ := ih rest_parts
        refine ⟨?_, back⟩
        rw [Bytes.ofGlyphs, List.flatMap_cons]
        exact (decode_encodeChar_append c _).trans (congrArg _ front)
      | none =>
        rw [found] at parts
        obtain ⟨rfl, rest_parts⟩ := List.cons.inj parts
        obtain ⟨front, back⟩ := ih rest_parts
        refine ⟨?_, back⟩
        -- The bytes that follow in the text complete no character, so fewer of them do not.
        have whole : rest = Bytes.ofGlyphs first ++ Bytes.ofGlyphs later := by
          rw [Bytes.ofGlyphs, Bytes.ofGlyphs, ← List.flatMap_append, ← List.append_eq,
            ← rest_parts, bytes_decode]
        have alone : leading? b (Bytes.ofGlyphs first) = none := by
          cases shorter : leading? b (Bytes.ofGlyphs first) with
          | none => rfl
          | some c =>
            rw [whole, leading?_append shorter] at found
            cases found
        have spelled : Bytes.ofGlyphs (.stray b :: first) = b :: Bytes.ofGlyphs first := rfl
        rw [spelled, decode_cons, alone]
        exact congrArg _ front

end Utf8

/-! ### Words -/

namespace Glyph

/-- The nonempty runs of glyphs between blank ones. -/
def words (glyphs : List Glyph) : List (List Glyph) :=
  (pieces isBlank glyphs).filter (!·.isEmpty)

theorem words_append_blank {blank : Glyph} (parts : blank.isBlank = true)
    (before after : List Glyph) :
    words (before ++ blank :: after) = words before ++ words after := by
  rw [words, pieces_append_cons parts, List.filter_append]
  rfl

variable {before word after : List Glyph}

theorem words_blanks_append (blanks : ∀ glyph ∈ before, glyph.isBlank = true)
    (rest : List Glyph) : words (before ++ rest) = words rest := by
  induction before with
  | nil => rfl
  | cons glyph before ih =>
    obtain ⟨first, later⟩ := List.forall_mem_cons.1 blanks
    exact (words_append_blank first [] (before ++ rest)).trans (ih later)

theorem words_of_blanks (blanks : ∀ glyph ∈ before, glyph.isBlank = true) : words before = [] := by
  have alone := words_blanks_append blanks []
  rwa [List.append_nil] at alone

theorem words_of_solid (filled : word ≠ []) (solid : ∀ glyph ∈ word, glyph.isBlank = false) :
    words word = [word] := by
  rw [words, pieces_of_free solid]
  simpa using filled

/-- The first word, and those after it. -/
theorem words_append (leading : ∀ glyph ∈ before, glyph.isBlank = true) (filled : word ≠ [])
    (solid : ∀ glyph ∈ word, glyph.isBlank = false)
    (trailing : ∀ glyph ∈ after, glyph.isBlank = true) {rest : List Glyph}
    (parted : after = [] → rest = []) :
    words (before ++ (word ++ (after ++ rest))) = word :: words rest := by
  rw [words_blanks_append leading]
  cases after with
  | nil =>
    rw [parted rfl, List.append_nil, List.append_nil, words_of_solid filled solid]
    rfl
  | cons glyph after =>
    obtain ⟨first, later⟩ := List.forall_mem_cons.1 trailing
    rw [List.cons_append, words_append_blank first, words_of_solid filled solid,
      words_blanks_append later]
    rfl

end Glyph

namespace Bytes

/-- A word: a text that is not empty and has no white space in it. -/
structure IsSolid (word : Bytes) : Prop where
  filled : word ≠ []
  solid : ∀ glyph ∈ Utf8.decode word, glyph.isBlank = false

/-- The words of a text, in order. White space stands between any two of them, and there may be some
before and after them. -/
inductive Words : Bytes → List Bytes → Prop
  | blank {text : Bytes} (blank : IsBlank text) : Words text []
  | word {before word after rest : Bytes} {words : List Bytes} (leading : IsBlank before)
      (solid : IsSolid word) (trailing : IsBlank after) (parted : after = [] → rest = [])
      (more : Words rest words) : Words (before ++ (word ++ (after ++ rest))) (word :: words)

/-- A blank text has no words, and no other text has none. -/
theorem words_nil_iff {text : Bytes} : Words text [] ↔ IsBlank text := by
  constructor
  · intro none
    cases none with
    | blank blank => exact blank
  · exact .blank

theorem fields_eq (text : Bytes) :
    text.fields = (Glyph.words (Utf8.decode text)).map ofGlyphs := rfl

theorem isBlank_of_mem_map {chars : List Char} (blanks : ∀ c ∈ chars, isBlank c = true) :
    ∀ glyph ∈ chars.map Glyph.char, glyph.isBlank = true := by
  intro glyph member
  obtain ⟨c, inside, rfl⟩ := List.mem_map.1 member
  exact blanks c inside

/-- The fields of a text are the words that it is put together from. -/
theorem Words.fields_eq {text : Bytes} {words : List Bytes} (holds : Words text words) :
    text.fields = words := by
  induction holds with
  | blank blank =>
    obtain ⟨chars, blanks, rfl⟩ := blank
    rw [Bytes.fields_eq, Utf8.decode, Utf8.decodeFrom_encode, List.reverse_nil, List.nil_append,
      Glyph.words_of_blanks (isBlank_of_mem_map blanks)]
    rfl
  | @word before word after rest words leading solid trailing parted more ih =>
    obtain ⟨first, blankFirst, rfl⟩ := leading
    obtain ⟨last, blankLast, rfl⟩ := trailing
    have starts : (Utf8.encode last ++ rest).head?.all (!Utf8.isContinuation ·) = true := by
      cases last with
      | nil =>
        rw [parted rfl]
        rfl
      | cons c last =>
        rw [Utf8.encode, List.flatMap_cons, List.append_assoc]
        exact Utf8.starts_encodeChar c _
    have filled : Utf8.decode word ≠ [] := by
      intro empty
      have bytes := Utf8.bytes_decode word
      rw [empty] at bytes
      exact solid.filled bytes.symm
    have ended : last.map Glyph.char = [] → Utf8.decode rest = [] := by
      intro none
      have gap : Utf8.encode last = [] := by
        rw [List.map_eq_nil_iff.1 none]
        rfl
      rw [parted gap]
      rfl
    rw [Bytes.fields_eq, Utf8.decode_encode_append, Utf8.decode_append word starts,
      Utf8.decode_encode_append, Glyph.words_append (isBlank_of_mem_map blankFirst) filled
        solid.solid (isBlank_of_mem_map blankLast) ended, List.map_cons, ← Bytes.fields_eq, ih]
    exact congrArg (· :: words) (Utf8.bytes_decode word)

/-- Decoded glyphs hold the words that their runs spell. -/
theorem words_of_decoded {glyphs : List Glyph} (decoded : Utf8.decode (ofGlyphs glyphs) = glyphs) :
    Words (ofGlyphs glyphs) ((Glyph.words glyphs).map ofGlyphs) := by
  induction size : glyphs.length using Nat.strong_induction_on generalizing glyphs with
  | h size ih =>
    subst size
    obtain ⟨before, rest, rfl, leading, starts⟩ := exists_run Glyph.isBlank glyphs
    cases rest with
    | nil =>
      rw [List.append_nil, Glyph.words_of_blanks leading]
      exact .blank (isBlank_ofGlyphs leading)
    | cons first rest =>
      obtain ⟨word, later, split, solid, ends⟩ := exists_run (!Glyph.isBlank ·) (first :: rest)
      have filled : word ≠ [] := by
        rintro rfl
        rw [List.nil_append] at split
        rw [← split] at ends
        have blank : first.isBlank = true := by simpa using ends
        simp [blank] at starts
      have solid : ∀ glyph ∈ word, glyph.isBlank = false :=
        fun glyph member => by simpa using solid glyph member
      -- A blank glyph ends the word, unless nothing follows it.
      obtain ⟨after, rest', rfl, trailing, parted⟩ : ∃ after rest', later = after ++ rest' ∧
          (∀ glyph ∈ after, glyph.isBlank = true) ∧ (after = [] → rest' = []) := by
        cases later with
        | nil => exact ⟨[], [], rfl, nofun, fun _ => rfl⟩
        | cons blank later =>
          exact ⟨[blank], later, rfl, by simpa using ends, nofun⟩
      rw [split] at decoded ih ⊢
      obtain ⟨_, here⟩ := Utf8.decode_of_parts decoded
      obtain ⟨spelled, there⟩ := Utf8.decode_of_parts here
      obtain ⟨gap, rest_decoded⟩ := Utf8.decode_of_parts there
      have shorter : rest'.length < (before ++ (word ++ (after ++ rest'))).length := by
        have positive := List.length_pos_iff.2 filled
        simp only [List.length_append]
        omega
      have more := ih _ shorter rest_decoded rfl
      have apart : ∀ first later : List Glyph,
          ofGlyphs (first ++ later) = ofGlyphs first ++ ofGlyphs later :=
        fun first later => List.flatMap_append
      rw [Glyph.words_append leading filled solid trailing parted, apart, apart, apart]
      refine .word (isBlank_ofGlyphs leading) ⟨?_, ?_⟩ (isBlank_ofGlyphs trailing) ?_ more
      · intro empty
        rw [empty] at spelled
        exact filled spelled.symm
      · rw [spelled]
        exact solid
      · intro empty
        rw [empty] at gap
        rw [parted gap.symm]
        rfl

/-- The fields of a text are exactly its words. -/
theorem fields_eq_iff {text : Bytes} {words : List Bytes} :
    text.fields = words ↔ Words text words := by
  constructor
  · rintro rfl
    have spelled : ofGlyphs (Utf8.decode text) = text := Utf8.bytes_decode text
    have decoded : Utf8.decode (ofGlyphs (Utf8.decode text)) = Utf8.decode text := by rw [spelled]
    have holds := words_of_decoded decoded
    rwa [spelled] at holds
  · exact Words.fields_eq

end Bytes

/-! ### Trimming -/

/-- Nothing is dropped just where neither end is to be dropped. -/
theorem dropTrailing_dropWhile_eq_self_iff {α : Type} {test : α → Bool} {items : List α} :
    dropTrailing test (items.dropWhile test) = items ↔
      items.head?.all (!test ·) = true ∧ items.getLast?.all (!test ·) = true := by
  cases items with
  | nil => exact ⟨fun _ => ⟨rfl, rfl⟩, fun _ => rfl⟩
  | cons first rest =>
    rw [List.getLast?_eq_some_getLast (List.cons_ne_nil first rest)]
    cases leading : test first with
    | true =>
      rw [List.dropWhile_cons_of_pos leading]
      constructor
      · intro kept
        have back : (dropTrailing test (rest.dropWhile test)).length ≤
            (rest.dropWhile test).length := (List.rdropWhile_prefix test _).length_le
        have front : (rest.dropWhile test).length ≤ rest.length :=
          (List.dropWhile_suffix test).length_le
        have length := congrArg List.length kept
        rw [List.length_cons] at length
        omega
      · rintro ⟨head, _⟩
        simp [leading] at head
    | false =>
      rw [List.dropWhile_cons_of_neg (by simp [leading])]
      have kept : dropTrailing test (first :: rest) = first :: rest ↔ _ :=
        List.rdropWhile_eq_self_iff
      rw [kept]
      simp [leading]

namespace Bytes

/-- What is trimmed is decoded as it was in the whole text. -/
theorem decode_trim (text : Bytes) : Utf8.decode text.trim =
    dropTrailing Glyph.isBlank ((Utf8.decode text).dropWhile Glyph.isBlank) := by
  have front : Utf8.decode text = (Utf8.decode text).takeWhile Glyph.isBlank ++
      (Utf8.decode text).dropWhile Glyph.isBlank := List.takeWhile_append_dropWhile.symm
  have back : (Utf8.decode text).dropWhile Glyph.isBlank =
      dropTrailing Glyph.isBlank ((Utf8.decode text).dropWhile Glyph.isBlank) ++
        ((Utf8.decode text).dropWhile Glyph.isBlank).rtakeWhile Glyph.isBlank :=
    List.rdropWhile_append_rtakeWhile.symm
  obtain ⟨_, later⟩ := Utf8.decode_of_parts front
  exact (Utf8.decode_of_parts (later.trans back)).1

/-- No white space stands at either end of the text. -/
def IsTrim (text : Bytes) : Prop := text.trim = text

instance (text : Bytes) : Decidable (IsTrim text) := inferInstanceAs (Decidable (text.trim = text))

/-- A text is trimmed just when its first glyph and its last are not blank. -/
theorem isTrim_iff {text : Bytes} : IsTrim text ↔
    (Utf8.decode text).head?.all (!Glyph.isBlank ·) = true ∧
      (Utf8.decode text).getLast?.all (!Glyph.isBlank ·) = true := by
  rw [← dropTrailing_dropWhile_eq_self_iff]
  constructor
  · intro trimmed
    rw [← decode_trim, trimmed]
  · intro same
    rw [IsTrim, trim, same]
    exact Utf8.bytes_decode text

/-- A trimmed text that is not empty may stand after another that starts with no white space. -/
theorem isTrim_append {first : Glyph} {front : List Glyph} {text back : Bytes}
    (decoded : Utf8.decode text = first :: front ++ Utf8.decode back)
    (solid : first.isBlank = false) (filled : back ≠ []) (trimmed : IsTrim back) :
    IsTrim text := by
  have glyphs : Utf8.decode back ≠ [] := by
    intro none
    have bytes := Utf8.bytes_decode back
    rw [none] at bytes
    exact filled bytes.symm
  refine isTrim_iff.2 ⟨?_, ?_⟩
  · rw [decoded]
    simpa using solid
  · rw [decoded, List.getLast?_append_of_ne_nil _ glyphs]
    exact (isTrim_iff.1 trimmed).2

end Bytes

end WordAssembler

import Mathlib.Data.List.Basic
import Mathlib.Data.List.TakeWhile
import WordAssembler.Proofs.Commented

/-!
The tokens of a line. A line is read into words, with a separator after each and blanks before the
next, and into at most one comment, which ends it. So the tokens keep all of a line but its
separators and what the comment ends with, and hold nothing that is not in the line.
-/

set_option autoImplicit false

namespace WordAssembler.Token

/-! ### How a text is read -/

/-- The tokens that a text is read into. A comment takes up the rest of a line. Any other word, which
may be empty, ends at a separator or with the text, and blanks after its separator start no token. -/
inductive Reads : Bytes → List Token → Prop
  | comment (rest : Bytes) :
      Reads (byte ':' :: rest) [⟨dropTrailing isCommentEnd (byte ':' :: rest), .comment⟩]
  | last {word : Bytes} (plain : word.head? ≠ some (byte ':'))
      (free : ∀ b ∈ word, isSeparator b = false) : Reads word [⟨word, kindOf word⟩]
  | ended {word gap : Bytes} {separator : UInt8} (plain : word.head? ≠ some (byte ':'))
      (free : ∀ b ∈ word, isSeparator b = false) (ends : isSeparator separator = true)
      (blanks : ∀ b ∈ gap, Bytes.isGap b = true) :
      Reads (word ++ separator :: gap) [⟨word, kindOf word⟩]
  | word {word gap text : Bytes} {separator : UInt8} {tokens : List Token}
      (plain : word.head? ≠ some (byte ':')) (free : ∀ b ∈ word, isSeparator b = false)
      (ends : isSeparator separator = true) (blanks : ∀ b ∈ gap, Bytes.isGap b = true)
      (more : Reads text tokens) :
      Reads (word ++ separator :: (gap ++ text)) (⟨word, kindOf word⟩ :: tokens)

section Word

variable {word : Bytes} (plain : word.head? ≠ some (byte ':'))
  (free : ∀ b ∈ word, isSeparator b = false)
include plain free

/-- The last word of a text is its first token, and nothing follows. -/
theorem first_last : first word = (⟨word, kindOf word⟩, []) := by
  have all : ∀ b ∈ word, (!isSeparator b) = true := fun b member => by simp [free b member]
  cases word with
  | nil => rfl
  | cons b rest =>
    have other : b ≠ byte ':' := by simpa using plain
    simp only [first, if_neg other]
    rw [List.takeWhile_eq_self_iff.2 all, List.dropWhile_eq_nil_iff.2 all]
    rfl

/-- A word before a separator is the first token of a text. -/
theorem first_word {separator : UInt8} (ends : isSeparator separator = true) (rest : Bytes) :
    first (word ++ separator :: rest) = (⟨word, kindOf word⟩, rest) := by
  have all : ∀ b ∈ word, (!isSeparator b) = true := fun b member => by simp [free b member]
  have taken : (separator :: rest).takeWhile (!isSeparator ·) = [] :=
    List.takeWhile_cons_of_neg (by simp [ends])
  have dropped : (separator :: rest).dropWhile (!isSeparator ·) = separator :: rest :=
    List.dropWhile_cons_of_neg (by simp [ends])
  cases word with
  | nil =>
    have other : separator ≠ byte ':' := by
      rintro rfl
      cases ends
    simp only [List.nil_append, first, if_neg other]
    rw [taken, dropped]
    rfl
  | cons b word =>
    have other : b ≠ byte ':' := by simpa using plain
    simp only [List.cons_append, first, if_neg other]
    rw [← List.cons_append, List.takeWhile_append_of_pos all, List.dropWhile_append_of_pos all,
      taken, dropped, List.append_nil]
    rfl

end Word

/-- The first token of a text is its last if only blanks follow. -/
theorem allFrom_of_blank {read : List Token} {text rest : Bytes} {token : Token}
    (head : first text = (token, rest)) (ended : rest.dropGap = []) :
    allFrom read text = read.reverse ++ [token] := by
  rw [allFrom, dif_neg (by simp [head, ended]), head, List.reverse_cons]

theorem allFrom_of_more {read : List Token} {text rest : Bytes} {token : Token}
    (head : first text = (token, rest)) (more : rest.dropGap ≠ []) :
    allFrom read text = allFrom (token :: read) rest.dropGap := by
  rw [allFrom, dif_pos (by simpa [head] using more)]
  simp only [head]

/-- The tokens of a text are read from it, after those read before. -/
theorem allFrom_reads (read : List Token) (text : Bytes) :
    ∃ tokens, Reads text tokens ∧ allFrom read text = read.reverse ++ tokens := by
  induction size : text.length using Nat.strong_induction_on generalizing read text with
  | h size ih =>
    subst size
    by_cases comment : text.head? = some (byte ':')
    · obtain ⟨rest, rfl⟩ := List.head?_eq_some_iff.1 comment
      exact ⟨_, .comment rest, allFrom_of_blank rfl rfl⟩
    · obtain ⟨word, later, rfl, inside, stops⟩ := exists_run (!isSeparator ·) text
      have free : ∀ b ∈ word, isSeparator b = false :=
        fun b member => by simpa using inside b member
      have plain : word.head? ≠ some (byte ':') := by
        intro colon
        obtain ⟨rest, rfl⟩ := List.head?_eq_some_iff.1 colon
        exact comment rfl
      cases later with
      | nil =>
        rw [List.append_nil]
        exact ⟨_, .last plain free, allFrom_of_blank (first_last plain free) rfl⟩
      | cons separator rest =>
        have ends : isSeparator separator = true := by simpa using stops
        have head := first_word plain free ends rest
        have parted : rest.takeWhile Bytes.isGap ++ Bytes.dropGap rest = rest :=
          List.takeWhile_append_dropWhile
        have blanks : ∀ b ∈ rest.takeWhile Bytes.isGap, Bytes.isGap b = true :=
          fun b => List.mem_takeWhile_imp
        by_cases ended : Bytes.dropGap rest = []
        · rw [ended, List.append_nil] at parted
          rw [parted] at blanks
          exact ⟨_, .ended plain free ends blanks, allFrom_of_blank head ended⟩
        · have shorter : (Bytes.dropGap rest).length < (word ++ separator :: rest).length := by
            have part := congrArg List.length parted
            simp only [List.length_append, List.length_cons] at part ⊢
            omega
          obtain ⟨tokens, reads, later⟩ := ih _ shorter (⟨word, kindOf word⟩ :: read) _ rfl
          have whole := Reads.word plain free ends blanks reads
          rw [parted] at whole
          refine ⟨_, whole, ?_⟩
          rw [allFrom_of_more head ended, later, List.reverse_cons, List.append_assoc,
            List.singleton_append]

/-- The tokens of a line are read from what follows its blanks. -/
theorem all_reads (line : Bytes) : Reads line.dropGap (all line) := by
  obtain ⟨tokens, reads, same⟩ := allFrom_reads [] line.dropGap
  rw [all, same]
  exact reads

/-! ### What is read -/

theorem kindOf_ne_comment {word : Bytes} (plain : word.head? ≠ some (byte ':')) :
    kindOf word ≠ .comment :=
  fun comment => plain (head_of_comment comment)

theorem kindOf_of_colon {text : Bytes} (colon : text.head? = some (byte ':')) :
    kindOf text = .comment := by
  obtain ⟨rest, rfl⟩ := List.head?_eq_some_iff.1 colon
  simp [kindOf]

namespace Reads

variable {text : Bytes} {tokens : List Token} (reads : Reads text tokens)
include reads

theorem ne_nil : tokens ≠ [] := by
  cases reads <;> simp

/-- Every token is of the kind that its text looks like. -/
theorem kind : ∀ token ∈ tokens, token.kind = kindOf token.text := by
  induction reads with
  | comment rest =>
    intro token member
    rw [List.mem_singleton.1 member]
    exact (kindOf_of_colon (head?_dropTrailing rfl rest)).symm
  | last plain free | ended plain free ends blanks =>
    intro token member
    rw [List.mem_singleton.1 member]
  | word plain free ends blanks more ih => exact List.forall_mem_cons.2 ⟨rfl, ih⟩

/-- No separator is in a token, except in a comment. -/
theorem free : ∀ token ∈ tokens, token.kind ≠ .comment →
    ∀ b ∈ token.text, isSeparator b = false := by
  induction reads with
  | comment rest =>
    intro token member other
    rw [List.mem_singleton.1 member] at other
    exact absurd rfl other
  | last plain free | ended plain free ends blanks =>
    intro token member _
    rw [List.mem_singleton.1 member]
    exact free
  | word plain free ends blanks more ih => exact List.forall_mem_cons.2 ⟨fun _ => free, ih⟩

/-- Only the last token can be a comment. -/
theorem dropLast : ∀ token ∈ tokens.dropLast, token.kind ≠ .comment := by
  induction reads with
  | comment rest => nofun
  | last plain free | ended plain free ends blanks => nofun
  | word plain free ends blanks more ih =>
    rw [List.dropLast_cons_of_ne_nil more.ne_nil]
    exact List.forall_mem_cons.2 ⟨kindOf_ne_comment plain, ih⟩

end Reads

/-! ### What is kept -/

/-- The tokens keep words and a remark after them: those that are no comment spell the words without
separators, and a comment stands for the remark if there is one. A remark starts with a colon, at
the start of the text or after a separator. -/
structure Keeps (words remark : Bytes) (tokens : List Token) : Prop where
  start : remark = [] ∨
    remark.head? = some (byte ':') ∧ words.getLast?.all isSeparator = true
  words : (tokens.filter (·.kind ≠ .comment)).flatMap (·.text) = words.filter (!isSeparator ·)
  comments : tokens.filter (·.kind = .comment) =
    if remark = [] then [] else [⟨dropTrailing isCommentEnd remark, .comment⟩]

/-- A separator and the blanks after it are separators. -/
theorem isSeparator_of_mem {gap : Bytes} {separator : UInt8} (ends : isSeparator separator = true)
    (blanks : ∀ b ∈ gap, Bytes.isGap b = true) : ∀ b ∈ separator :: gap, isSeparator b = true :=
  List.forall_mem_cons.2 ⟨ends, fun b member => isSeparator_of_isGap (blanks b member)⟩

theorem filter_of_free {word : Bytes} (free : ∀ b ∈ word, isSeparator b = false) :
    word.filter (!isSeparator ·) = word :=
  List.filter_eq_self.2 fun b member => by simp [free b member]

theorem filter_of_blanks {gap : Bytes} (blanks : ∀ b ∈ gap, isSeparator b = true) :
    gap.filter (!isSeparator ·) = [] :=
  List.filter_eq_nil_iff.2 fun b member => by simp [blanks b member]

theorem getLast?_of_blanks {gap : Bytes} (blanks : ∀ b ∈ gap, isSeparator b = true) :
    gap.getLast?.all isSeparator = true := by
  rw [Option.all_eq_true]
  exact fun b last => blanks b (List.mem_of_getLast? last)

namespace Keeps

variable {words remark front : Bytes} {tokens : List Token}

/-- One word is kept, with separators after it. -/
theorem word {word gap : Bytes} (plain : word.head? ≠ some (byte ':'))
    (free : ∀ b ∈ word, isSeparator b = false) (blanks : ∀ b ∈ gap, isSeparator b = true) :
    Keeps (word ++ gap) [] [⟨word, kindOf word⟩] := by
  have kind := kindOf_ne_comment plain
  refine ⟨Or.inl rfl, ?_, ?_⟩
  · rw [List.filter_append, filter_of_free free, filter_of_blanks blanks]
    simp [kind]
  · simp [kind]

/-- What is read before keeps what stands before, if a comment could follow it. -/
theorem after (keeps : Keeps words remark tokens) (read : List Token)
    (kinds : ∀ token ∈ read, token.kind ≠ .comment)
    (spelled : read.flatMap (·.text) = front.filter (!isSeparator ·))
    (last : front.getLast?.all isSeparator = true) :
    Keeps (front ++ words) remark (read ++ tokens) := by
  have others : read.filter (·.kind ≠ .comment) = read :=
    List.filter_eq_self.2 fun token member => by simpa using kinds token member
  have none : read.filter (·.kind = .comment) = [] :=
    List.filter_eq_nil_iff.2 fun token member => by simpa using kinds token member
  refine ⟨?_, ?_, ?_⟩
  · rcases keeps.start with empty | ⟨colon, ended⟩
    · exact Or.inl empty
    · refine Or.inr ⟨colon, ?_⟩
      rw [List.getLast?_append]
      cases final : words.getLast? with
      | none => exact last
      | some b =>
        rw [final] at ended
        exact ended
  · rw [List.filter_append, List.flatMap_append, others, spelled, keeps.words, List.filter_append]
  · rw [List.filter_append, none, keeps.comments, List.nil_append]

end Keeps

/-- A text is words and a remark, which its tokens keep. -/
theorem Reads.keeps {text : Bytes} {tokens : List Token} (reads : Reads text tokens) :
    ∃ words remark, text = words ++ remark ∧ Keeps words remark tokens := by
  induction reads with
  | comment rest =>
    refine ⟨[], byte ':' :: rest, rfl, Or.inr ⟨rfl, rfl⟩, ?_, ?_⟩
    · simp
    · simp
  | @last word plain free =>
    refine ⟨word ++ [], [], by simp, Keeps.word plain free ?_⟩
    exact fun b member => absurd member List.not_mem_nil
  | @ended word gap separator plain free ends blanks =>
    refine ⟨word ++ separator :: gap, [], by simp, Keeps.word plain free ?_⟩
    exact isSeparator_of_mem ends blanks
  | @word word gap text separator tokens plain free ends blanks more ih =>
    obtain ⟨words, remark, rfl, keeps⟩ := ih
    have blank := isSeparator_of_mem ends blanks
    refine ⟨word ++ separator :: gap ++ words, remark, by simp, ?_⟩
    refine keeps.after [⟨word, kindOf word⟩] ?_ ?_ ?_
    · simpa using kindOf_ne_comment plain
    · rw [List.filter_append, filter_of_free free, filter_of_blanks blank]
      simp
    · rw [List.getLast?_append_of_ne_nil _ (List.cons_ne_nil separator gap)]
      exact getLast?_of_blanks blank

/-- Every line has tokens, each of the kind that its text looks like. No separator is in one of them
but a comment, which can only be the last. They lose nothing but separators and the end of a comment,
and invent nothing: the line is words and a remark, and the tokens keep just these. -/
theorem all_exact (line : Bytes) : all line ≠ [] ∧
    (∀ token ∈ all line, token.kind = kindOf token.text) ∧
    (∀ token ∈ all line, token.kind ≠ .comment → ∀ b ∈ token.text, isSeparator b = false) ∧
    (∀ token ∈ (all line).dropLast, token.kind ≠ .comment) ∧
    ∃ words remark, line = words ++ remark ∧ Keeps words remark (all line) := by
  have reads := all_reads line
  have blanks : ∀ b ∈ line.takeWhile Bytes.isGap, isSeparator b = true :=
    fun b member => isSeparator_of_isGap (List.mem_takeWhile_imp member)
  refine ⟨reads.ne_nil, reads.kind, reads.free, reads.dropLast, ?_⟩
  obtain ⟨words, remark, split, keeps⟩ := reads.keeps
  refine ⟨line.takeWhile Bytes.isGap ++ words, remark, ?_, ?_⟩
  · rw [List.append_assoc, ← split]
    exact List.takeWhile_append_dropWhile.symm
  · refine keeps.after [] nofun ?_ (getLast?_of_blanks blanks)
    rw [filter_of_blanks blanks]
    rfl

/-- A line with two commas in a row, and with a comment that ends with a carriage return. -/
def commaLine : Bytes := ascii " AB,, :end \r"

theorem all_commaLine :
    all commaLine = [⟨ascii "AB", .label⟩, ⟨[], .empty⟩, ⟨ascii ":end", .comment⟩] := by
  have word : first commaLine.dropGap = (⟨ascii "AB", .label⟩, ascii ", :end \r") := by decide
  have field : first (Bytes.dropGap (ascii ", :end \r")) = (⟨[], .empty⟩, ascii " :end \r") := by
    decide
  have comment : first (Bytes.dropGap (ascii " :end \r")) = (⟨ascii ":end", .comment⟩, []) := by
    decide
  rw [all, allFrom_of_more word (by decide), allFrom_of_more field (by decide),
    allFrom_of_blank comment rfl]
  rfl

/-- The second comma ends an empty token, and the comment is kept without its end. -/
theorem all_exact_commaLine :
    Token.mk (ascii "AB") .label ∈ all commaLine ∧ (∀ b ∈ ascii "AB", isSeparator b = false) ∧
      kindOf (ascii ":end") = .comment ∧
      ∃ words remark, commaLine = words ++ remark ∧
        Keeps words remark [⟨ascii "AB", .label⟩, ⟨[], .empty⟩, ⟨ascii ":end", .comment⟩] := by
  obtain ⟨_, kind, free, others, kept⟩ := all_exact commaLine
  rw [all_commaLine] at kind free others kept ⊢
  have label : Token.mk (ascii "AB") .label ∈ [Token.mk (ascii "AB") .label, ⟨[], .empty⟩,
    ⟨ascii ":end", .comment⟩] := by decide
  have other := others _ (List.mem_cons_self)
  exact ⟨label, free _ label other, (kind ⟨ascii ":end", .comment⟩ (by decide)).symm, kept⟩

end WordAssembler.Token

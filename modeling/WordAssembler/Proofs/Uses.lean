import Mathlib.Data.List.TakeWhile
import WordAssembler.Proofs.Substitution

/-!
Where a name is used in a line. A line up to its operand is known by what it says when it is read by
itself; whatever token stands after it is the operand, and what follows the token is left for the
rest of the line. So the name in an operand can be replaced, and nothing else in the line changes.
-/

set_option autoImplicit false

namespace WordAssembler

open Expression

/-! ### Tokens after a text -/

namespace Token

/-- The text ends with a separator, if there is anything in it. -/
def Ended (text : Bytes) : Prop := text.getLast?.all isSeparator = true

theorem Ended.suffix {text tail : Bytes} (ended : Ended text) (suffix : tail <:+ text) :
    Ended tail := by
  obtain ⟨front, rfl⟩ := suffix
  cases tail with
  | nil => rfl
  | cons b rest =>
    unfold Ended at ended ⊢
    rwa [List.getLast?_append_of_ne_nil _ (List.cons_ne_nil b rest)] at ended

/-- What follows a text with gaps only. -/
theorem next_of_blank {text : Bytes} (blank : text.dropGap = []) (more : Bytes) :
    next (text ++ more) = next more := by
  have gaps : (text ++ more).dropGap = more.dropGap := by
    unfold Bytes.dropGap at blank ⊢
    rw [List.dropWhile_append, blank]
    rfl
  rw [next, gaps, next]

/-- The first token of a text that ends with a separator, and what is left, whatever follows. -/
theorem next_of_ended {text rest : Bytes} {b : UInt8} (start : text.dropGap = b :: rest)
    (word : b ≠ byte ':') (ended : Ended text) (more : Bytes) :
    next (text ++ more) = ((next text).1, (next text).2 ++ more) ∧ Ended (next text).2 := by
  have tail : Ended (b :: rest) := by
    rw [← start]
    exact ended.suffix (List.dropWhile_suffix _)
  have gaps : (text ++ more).dropGap = b :: rest ++ more := by
    rw [← start]
    unfold Bytes.dropGap at start ⊢
    rw [List.dropWhile_append, start]
    rfl
  -- The last byte is a separator, so the word stops before the end of the text.
  obtain ⟨stop, after, stopped⟩ : ∃ stop after,
      (b :: rest).dropWhile (!isSeparator ·) = stop :: after := by
    apply List.exists_cons_of_ne_nil
    intro none
    have last := List.getLast?_eq_some_getLast (List.cons_ne_nil b rest)
    rw [Ended, last, Option.all_some] at tail
    have inside := List.dropWhile_eq_nil_iff.1 none _ (List.getLast_mem (List.cons_ne_nil b rest))
    rw [tail] at inside
    cases inside
  have separator : isSeparator stop = true := by
    have first := List.head?_dropWhile_not (!isSeparator ·) (b :: rest)
    rw [stopped] at first
    simpa using first
  have split : b :: rest = (b :: rest).takeWhile (!isSeparator ·) ++ stop :: after := by
    rw [← stopped, List.takeWhile_append_dropWhile]
  have taken : (b :: rest ++ more).takeWhile (!isSeparator ·) =
      (b :: rest).takeWhile (!isSeparator ·) := by
    nth_rewrite 1 [split]
    rw [List.append_assoc, List.cons_append, takeWhile_append_stop _ (by simp [separator]),
      List.takeWhile_eq_self_iff]
    intro c member
    exact List.mem_takeWhile_imp (p := (!isSeparator ·)) member
  have dropped : (b :: rest ++ more).dropWhile (!isSeparator ·) = stop :: after ++ more := by
    rw [List.dropWhile_append, stopped]
    rfl
  have whole : next text =
      (⟨(b :: rest).takeWhile (!isSeparator ·), kindOf ((b :: rest).takeWhile (!isSeparator ·))⟩,
        after) := by
    rw [next, start, first, if_neg word, stopped]
    rfl
  rw [whole]
  refine ⟨?_, tail.suffix ?_⟩
  · rw [next, gaps, List.cons_append, first, if_neg word, ← List.cons_append, taken, dropped]
    rfl
  · rw [split]
    exact ⟨(b :: rest).takeWhile (!isSeparator ·) ++ [stop], by simp⟩

end Token

/-- The columns of a text that ends with a separator after its command, whatever follows. -/
theorem Assembler.columns_of_ended {assembler : Assembler} {head : Bytes}
    (ended : Token.Ended head) (command : (assembler.columns head).command.kind = .label)
    (more : Bytes) :
    assembler.columns (head ++ more) = ⟨(assembler.columns head).label,
        (assembler.columns head).command, (assembler.columns head).rest ++ more⟩ ∧
      Token.Ended (assembler.columns head).rest := by
  have begins : ∀ text : Bytes, (Token.next text).1.kind = .label →
      ∃ b rest, text.dropGap = b :: rest ∧ b ≠ byte ':' := by
    intro text kind
    exact Token.start_of_next (by simp [kind]) (by simp [kind])
  have starts : startsLabel head = true ∨ (Token.next head).1.kind = .label := by
    unfold columns at command
    dsimp only at command
    split at command
    · rename_i labelled
      exact Or.inl (Bool.and_eq_true_iff.1 labelled).1
    · exact Or.inr command
  obtain ⟨b, rest, start, word⟩ : ∃ b rest, head.dropGap = b :: rest ∧ b ≠ byte ':' := by
    rcases starts with labelled | kind
    · exact start_of_startsLabel labelled
    · exact begins head kind
  obtain ⟨first, left⟩ := Token.next_of_ended start word ended more
  have labels : startsLabel (head ++ more) = startsLabel head :=
    startsLabel_append (by rw [start]; exact List.cons_ne_nil b rest) more
  unfold columns at command ⊢
  rw [labels, first]
  by_cases labelled : (startsLabel head && !assembler.isReserved (Token.next head).1.text) = true
  · simp only [if_pos labelled] at command ⊢
    obtain ⟨c, later, follows, plain⟩ := begins (Token.next head).2 command
    obtain ⟨second, after⟩ := Token.next_of_ended follows plain left more
    rw [second]
    exact ⟨rfl, after⟩
  · simp only [if_neg labelled, true_and]
    exact left

/-! ### Operands after a text -/

/-- What a line says before its operand. -/
inductive Lead where
  | directive (directive : Directive)
  | instruction (group : Group) (function : Bytes)
deriving DecidableEq, Repr

/-- The text is a line up to its operand: it has a command, and the function of an instruction, and
then nothing but gaps. -/
inductive Assembler.Leads (assembler : Assembler) (head : Bytes) : Lead → Prop
  | directive {directive : Directive}
      (command : assembler.command? (assembler.columns head).command = some (.directive directive))
      (blank : (assembler.columns head).rest.dropGap = []) :
      Leads assembler head (.directive directive)
  | instruction {group : Group}
      (command : assembler.command? (assembler.columns head).command = some (.group group))
      (filled : (assembler.columns head).rest.dropGap ≠ [])
      (spoken : (Token.next (assembler.columns head).rest).1.kind ≠ .comment)
      (blank : (Token.next (assembler.columns head).rest).2.dropGap = []) :
      Leads assembler head
        (.instruction group (upper (Token.next (assembler.columns head).rest).1.text))

/-- A run of bytes that is read as one token. -/
structure Token.IsRun (run : Bytes) : Prop where
  nonempty : run ≠ []
  inside : ∀ b ∈ run, isSeparator b = false
  word : run.head? ≠ some (byte ':')

theorem Token.IsRun.next {run after : Bytes} (isRun : IsRun run)
    (ends : after.head?.all isSeparator = true) :
    Token.next (run ++ after) = (⟨run, kindOf run⟩, after.drop 1) :=
  next_run isRun.nonempty isRun.inside isRun.word ends

namespace Assembler

variable {assembler : Assembler} {head tail : Bytes} (ended : Token.Ended head)
  (closed : tail.head?.all Token.isSeparator = true)
include ended closed

/-- The operand of a directive is the token after its name. -/
theorem columns_of_directive {directive : Directive}
    (leads : assembler.Leads head (.directive directive)) {token : Bytes}
    (isRun : Token.IsRun token) :
    ∃ rest, assembler.columns (head ++ token ++ tail) =
        ⟨(assembler.columns head).label, (assembler.columns head).command, rest⟩ ∧
      Token.next rest = (⟨token, Token.kindOf token⟩, tail.drop 1) := by
  cases leads with
  | directive command blank =>
    rw [List.append_assoc]
    refine ⟨_, (columns_of_ended ended (kind_of_command? command) _).1, ?_⟩
    rw [Token.next_of_blank blank, isRun.next closed]

/-- The operand of an instruction is the token after its function. -/
theorem columns_of_instruction {group : Group} {function : Bytes}
    (leads : assembler.Leads head (.instruction group function)) :
    ∃ word : Token, word.kind ≠ .comment ∧ function = upper word.text ∧
      ∀ token, Token.IsRun token → ∃ rest after,
        assembler.columns (head ++ token ++ tail) =
          ⟨(assembler.columns head).label, (assembler.columns head).command, rest⟩ ∧
        Token.next rest = (word, after) ∧
        Token.next after = (⟨token, Token.kindOf token⟩, tail.drop 1) := by
  cases leads with
  | instruction command filled spoken blank =>
    refine ⟨_, spoken, rfl, fun token isRun => ?_⟩
    rw [List.append_assoc]
    obtain ⟨columns, left⟩ := columns_of_ended ended (kind_of_command? command) (token ++ tail)
    obtain ⟨b, rest, start⟩ := List.exists_cons_of_ne_nil filled
    have word : b ≠ byte ':' := by
      rintro rfl
      apply spoken
      rw [Token.next, start, Token.first, if_pos rfl]
    obtain ⟨next, _⟩ := Token.next_of_ended start word left (token ++ tail)
    refine ⟨_, _, columns, next, ?_⟩
    rw [Token.next_of_blank blank, isRun.next closed]

end Assembler

/-! ### Operands that are read -/

namespace Token

theorem Ended.append {front tail : Bytes} (first : Ended front) (second : Ended tail) :
    Ended (front ++ tail) := by
  cases tail with
  | nil => rwa [List.append_nil]
  | cons b rest =>
    unfold Ended
    rwa [List.getLast?_append_of_ne_nil _ (List.cons_ne_nil b rest)]

theorem dropGap_blank (text : Bytes) : Bytes.dropGap (text.takeWhile Bytes.isGap) = [] := by
  rw [Bytes.dropGap, List.dropWhile_eq_nil_iff]
  intro b member
  exact List.mem_takeWhile_imp member

theorem ended_blank (text : Bytes) : Ended (text.takeWhile Bytes.isGap) := by
  unfold Ended
  cases last : (text.takeWhile Bytes.isGap).getLast? with
  | none => rfl
  | some b =>
    have gap : Bytes.isGap b = true := List.mem_takeWhile_imp (List.mem_of_getLast? last)
    exact isSeparator_of_isGap gap

/-- A text that has more after its first token, cut before the rest. -/
theorem next_cut {text rest : Bytes} {b : UInt8} (start : text.dropGap = b :: rest)
    (word : b ≠ byte ':') (more : (next text).2 ≠ []) :
    ∃ front, text = front ++ (next text).2 ∧ Ended front ∧
      (∃ late, front.dropGap = b :: late) ∧ next front = ((next text).1, []) := by
  have whole : next text =
      (⟨(b :: rest).takeWhile (!isSeparator ·), kindOf ((b :: rest).takeWhile (!isSeparator ·))⟩,
        ((b :: rest).dropWhile (!isSeparator ·)).drop 1) := by
    rw [next, start, first, if_neg word]
  have split := List.takeWhile_append_dropWhile (p := (!isSeparator ·)) (l := b :: rest)
  have stops := List.head?_dropWhile_not (!isSeparator ·) (b :: rest)
  have inside : ∀ c ∈ (b :: rest).takeWhile (!isSeparator ·), (!isSeparator c) = true := by
    intro c member
    exact List.mem_takeWhile_imp (p := (!isSeparator ·)) member
  have visible : Bytes.isGap b = false := by
    have head := List.head?_dropWhile_not Bytes.isGap text
    rw [← Bytes.dropGap, start] at head
    simpa using head
  have gaps : text = text.takeWhile Bytes.isGap ++ b :: rest := by
    rw [← start, Bytes.dropGap, List.takeWhile_append_dropWhile]
  rw [whole] at more ⊢
  generalize (b :: rest).takeWhile (!isSeparator ·) = run at split inside more ⊢
  generalize (b :: rest).dropWhile (!isSeparator ·) = left at split stops more ⊢
  cases left with
  | nil => exact absurd rfl more
  | cons stop after =>
    have separator : isSeparator stop = true := by simpa using stops
    obtain ⟨late, begins⟩ : ∃ late, run ++ [stop] = b :: late := by
      cases run with
      | nil =>
        cases split
        exact ⟨[], rfl⟩
      | cons c run =>
        cases split
        exact ⟨run ++ [stop], rfl⟩
    have kept : Bytes.dropGap (text.takeWhile Bytes.isGap ++ (run ++ [stop])) = run ++ [stop] := by
      have blank : ∀ c ∈ text.takeWhile Bytes.isGap, Bytes.isGap c = true := by
        intro c member
        exact List.mem_takeWhile_imp member
      rw [Bytes.dropGap, List.dropWhile_append_of_pos blank, begins,
        List.dropWhile_cons_of_neg (by simp [visible])]
    refine ⟨text.takeWhile Bytes.isGap ++ (run ++ [stop]), ?_, ?_, ?_, ?_⟩
    · nth_rewrite 1 [gaps]
      rw [← split, List.append_assoc, List.append_assoc]
      rfl
    · simp [Ended, separator]
    · exact ⟨late, by rw [kept, begins]⟩
    · rw [next, kept, begins, first, if_neg word, ← begins, List.takeWhile_append_of_pos inside,
        List.dropWhile_append_of_pos inside]
      simp [separator]

/-- A token that is neither missing nor a comment, with the gap before it and what follows. -/
theorem next_around {text : Bytes} (filled : (next text).1.kind ≠ .empty)
    (spoken : (next text).1.kind ≠ .comment) :
    ∃ gap tail, text = gap ++ (next text).1.text ++ tail ∧ gap.dropGap = [] ∧ Ended gap ∧
      tail.head?.all isSeparator = true := by
  obtain ⟨b, rest, start, word⟩ := start_of_next filled spoken
  refine ⟨text.takeWhile Bytes.isGap, (b :: rest).dropWhile (!isSeparator ·), ?_,
    dropGap_blank text, ended_blank text, ?_⟩
  · have same : (next text).1.text = (b :: rest).takeWhile (!isSeparator ·) := by
      rw [next, start, first, if_neg word]
    rw [same, List.append_assoc, List.takeWhile_append_dropWhile, ← start, Bytes.dropGap,
      List.takeWhile_append_dropWhile]
  · have stops := List.head?_dropWhile_not (!isSeparator ·) (b :: rest)
    generalize (b :: rest).dropWhile (!isSeparator ·) = left at stops ⊢
    cases left with
    | nil => rfl
    | cons stop after => simpa using stops

end Token

/-- The token of an operand that is a name or an expression. -/
theorem Operand.token_of_kind {token : Token} (kind : (Operand.ofToken token).kind = .symbol ∨
      (Operand.ofToken token).kind = .expression) :
    token.kind ≠ .empty ∧ token.kind ≠ .comment ∧ (Operand.ofToken token).text = token.text := by
  have present : Operand.ofToken token ≠ .absent := by
    intro absent
    rw [absent] at kind
    rcases kind with symbol | expression
    · cases symbol
    · cases expression
  refine ⟨fun empty => present ?_, fun comment => present ?_,
    (Operand.ofToken_text token).resolve_left present⟩
  · rw [Operand.ofToken, empty]
  · rw [Operand.ofToken, comment]

/-- An expression is a token that looks like one. -/
theorem Operand.kindOf_of_expression {line : Bytes}
    (expression : (ofToken (Token.next line).1).kind = .expression) :
    Token.kindOf (ofToken (Token.next line).1).text = .expression := by
  obtain ⟨_, spoken, text⟩ := token_of_kind (Or.inr expression)
  rw [text, ← Token.next_kind spoken]
  generalize (Token.next line).1 = token at expression
  unfold ofToken at expression
  split at expression
  · cases expression
  · cases expression
  · cases expression
  · assumption
  · rcases numberOf_kind token.text with number | malformed
    · rw [number] at expression
      cases expression
    · rw [malformed] at expression
      cases expression
  · rcases literalOf_kind token.text with literal | malformed
    · dsimp only at expression
      rw [expression] at literal
      cases literal
    · rw [malformed] at expression
      cases expression
  · cases expression

namespace Assembler

variable {assembler : Assembler} {source : Bytes}

/-- A line that has more after its command, cut before the rest. -/
theorem columns_cut (command : (assembler.columns source).command.kind = .label)
    (more : (assembler.columns source).rest ≠ []) :
    ∃ head, source = head ++ (assembler.columns source).rest ∧ Token.Ended head ∧
      assembler.columns head =
        ⟨(assembler.columns source).label, (assembler.columns source).command, []⟩ := by
  have begins : ∀ text : Bytes, (Token.next text).1.kind = .label →
      ∃ b rest, text.dropGap = b :: rest ∧ b ≠ byte ':' := by
    intro text kind
    exact Token.start_of_next (by simp [kind]) (by simp [kind])
  unfold columns at command more ⊢
  by_cases labelled :
      (startsLabel source && !assembler.isReserved (Token.next source).1.text) = true
  · simp only [if_pos labelled] at command more ⊢
    obtain ⟨c, later, follows, plain⟩ := begins (Token.next source).2 command
    obtain ⟨second, cut, ended, _, next⟩ := Token.next_cut follows plain more
    obtain ⟨b, rest, start, word⟩ := start_of_startsLabel (Bool.and_eq_true_iff.1 labelled).1
    have unread : (Token.next source).2 ≠ [] := by
      intro none
      rw [none] at follows
      cases follows
    obtain ⟨first, before, closed, ⟨late, again⟩, label⟩ := Token.next_cut start word unread
    have read : Token.next (first ++ second) = ((Token.next source).1, second) := by
      rw [(Token.next_of_ended again word closed second).1, label]
      rfl
    have starts : startsLabel (first ++ second) = startsLabel source := by
      have filled : first.dropGap ≠ [] := by
        rw [again]
        exact List.cons_ne_nil b late
      rw [before, startsLabel_append filled, startsLabel_append filled]
    refine ⟨first ++ second, ?_, closed.append ended, ?_⟩
    · rw [List.append_assoc, ← cut]
      exact before
    · simp only [read, starts, if_pos labelled, next]
  · simp only [if_neg labelled] at command more ⊢
    obtain ⟨b, rest, start, word⟩ := begins source command
    obtain ⟨front, before, ended, ⟨late, again⟩, next⟩ := Token.next_cut start word more
    have starts : startsLabel front = startsLabel source := by
      have filled : front.dropGap ≠ [] := by
        rw [again]
        exact List.cons_ne_nil b late
      rw [before, startsLabel_append filled]
    refine ⟨front, before, ended, ?_⟩
    simp only [next, starts, if_neg labelled]

/-- An operand of a directive that is a name or an expression stands after a line up to its
operand. -/
theorem leads_of_directive {directive : Directive} {operand : Operand}
    (said : assembler.directive? source = some (directive, operand))
    (kind : operand.kind = .symbol ∨ operand.kind = .expression) :
    ∃ head tail, source = head ++ operand.text ++ tail ∧ Token.Ended head ∧
      tail.head?.all Token.isSeparator = true ∧ assembler.Leads head (.directive directive) := by
  obtain ⟨command, rfl⟩ := directive?_eq_some said
  obtain ⟨filled, spoken, text⟩ := Operand.token_of_kind kind
  obtain ⟨gap, tail, around, blank, gapped, closed⟩ := Token.next_around filled spoken
  have more : (assembler.columns source).rest ≠ [] := by
    intro none
    rw [none] at filled
    exact filled rfl
  obtain ⟨head, cut, ended, columns⟩ := columns_cut (kind_of_command? command) more
  have same : (assembler.columns head).command = (assembler.columns source).command := by
    rw [columns]
  have longer := (columns_of_ended ended (by rw [same]; exact kind_of_command? command) gap).1
  rw [columns] at longer
  refine ⟨head ++ gap, tail, ?_, ended.append gapped, closed, .directive ?_ ?_⟩
  · rw [text, List.append_assoc, List.append_assoc, ← List.append_assoc gap, ← around]
    exact cut
  · rw [longer]
    exact command
  · rw [longer]
    exact blank

/-- An operand of an instruction that is a name or an expression stands after a line up to its
operand. -/
theorem leads_of_instruction {group : Group} {function operand : Token}
    {after : Bytes} (command : assembler.command? (assembler.columns source).command =
      some (.group group))
    (next : Token.next (assembler.columns source).rest = (function, after))
    (spoken : function.kind ≠ .comment) (follows : (Token.next after).1 = operand)
    (kind : (Operand.ofToken operand).kind = .symbol ∨
      (Operand.ofToken operand).kind = .expression) :
    ∃ head tail, source = head ++ operand.text ++ tail ∧ Token.Ended head ∧
      tail.head?.all Token.isSeparator = true ∧
      assembler.Leads head (.instruction group (upper function.text)) := by
  subst follows
  obtain ⟨filled, uncommented, _⟩ := Operand.token_of_kind kind
  obtain ⟨gap, tail, around, blank, gapped, closed⟩ := Token.next_around filled uncommented
  have unread : after ≠ [] := by
    rintro rfl
    exact filled rfl
  obtain ⟨b, rest, start⟩ : ∃ b rest, (assembler.columns source).rest.dropGap = b :: rest := by
    apply List.exists_cons_of_ne_nil
    intro none
    rw [Token.next, none] at next
    cases next
    exact unread rfl
  have word : b ≠ byte ':' := by
    rintro rfl
    rw [Token.next, start, Token.first, if_pos rfl] at next
    cases next
    exact spoken rfl
  obtain ⟨front, before, fronted, ⟨late, again⟩, read⟩ :=
    Token.next_cut start word (by rw [next]; exact unread)
  have more : (assembler.columns source).rest ≠ [] := by
    intro none
    rw [none] at start
    cases start
  obtain ⟨head, cut, ended, columns⟩ := columns_cut (kind_of_command? command) more
  have same : (assembler.columns head).command = (assembler.columns source).command := by
    rw [columns]
  have longer := (columns_of_ended ended (by rw [same]; exact kind_of_command? command)
    (front ++ gap)).1
  rw [columns] at longer
  have reads : Token.next (assembler.columns (head ++ (front ++ gap))).rest = (function, gap) := by
    rw [longer]
    change Token.next (front ++ gap) = _
    rw [(Token.next_of_ended again word fronted gap).1, read, next]
    rfl
  have leads : assembler.Leads (head ++ (front ++ gap)) (.instruction group
      (upper (Token.next (assembler.columns (head ++ (front ++ gap))).rest).1.text)) := by
    refine .instruction ?_ ?_ ?_ ?_
    · rw [longer]
      exact command
    · rw [longer]
      change Bytes.dropGap (front ++ gap) ≠ []
      rw [Bytes.dropGap, List.dropWhile_append, ← Bytes.dropGap, again]
      exact List.cons_ne_nil _ _
    · rw [reads]
      exact spoken
    · rw [reads]
      exact blank
  rw [reads] at leads
  refine ⟨head ++ (front ++ gap), tail, ?_, ended.append (fronted.append gapped), closed, leads⟩
  rw [next] at before
  rw [List.append_assoc, List.append_assoc, List.append_assoc, ← List.append_assoc gap, ← around,
    ← before]
  exact cut

/-- What a line says before its operand, and the operand. -/
def lead? (assembler : Assembler) (source : Bytes) : Option (Lead × Operand) :=
  let rest := (assembler.columns source).rest
  match assembler.command? (assembler.columns source).command with
  | some (.directive directive) => some (.directive directive, Operand.ofToken (Token.next rest).1)
  | some (.group group) =>
    let (function, after) := Token.next rest
    if function.kind = .comment then none
    else some (.instruction group (upper function.text), Operand.ofToken (Token.next after).1)
  | none => none

theorem kindOf_of_lead? {lead : Lead} {operand : Operand}
    (said : assembler.lead? source = some (lead, operand))
    (expression : operand.kind = .expression) :
    Token.kindOf operand.text = .expression := by
  unfold lead? at said
  dsimp only at said
  split at said
  · cases said
    exact Operand.kindOf_of_expression expression
  · split at said
    · cases said
    · cases said
      exact Operand.kindOf_of_expression expression
  · cases said

/-- An operand that is a name or an expression stands after a line up to its operand. -/
theorem leads_of_lead? {lead : Lead} {operand : Operand}
    (said : assembler.lead? source = some (lead, operand))
    (kind : operand.kind = .symbol ∨ operand.kind = .expression) :
    ∃ head tail, source = head ++ operand.text ++ tail ∧ Token.Ended head ∧
      tail.head?.all Token.isSeparator = true ∧ assembler.Leads head lead := by
  unfold lead? at said
  dsimp only at said
  split at said
  · rename_i directive command
    cases said
    exact leads_of_directive (directive?_of_command command) kind
  · rename_i group command
    split at said
    · cases said
    · rename_i spoken
      cases said
      obtain ⟨_, _, text⟩ := Operand.token_of_kind kind
      rw [text]
      exact leads_of_instruction command rfl spoken rfl kind
  · cases said

end Assembler

end WordAssembler

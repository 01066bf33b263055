import WordAssembler.Proofs.Shifted

/-!
Evaluations that share a modification. A call either fails and leaves the modification as it was, or
adds adjustments after those that are there; those of an address constant are as many as its terms
ask for, and none if it is literal or absolute. So whatever calls came before, the adjustments that
a modification had at first are still there, and first.
-/

set_option autoImplicit false

namespace WordAssembler

theorem Modification.append_append (modification : Modification) (first second : List Adjustment) :
    (modification.append first).append second = modification.append (first ++ second) := by
  simp [Modification.append]

namespace Expression.Evaluator

/-! ### Calls and what they return -/

/-- A call to evaluate the expression of an operand or of an address constant. -/
inductive Call where
  | operand (expression : Bytes) (location : Int)
  | constant (expression : Bytes) (location limit : Int)
deriving DecidableEq, Repr

/-- What a call returns: a value, blank if it fails, and why it fails. -/
inductive Answer where
  | operand (value : Int) (failure : Option Key)
  | constant (found : Constant) (failure : Option Key)
deriving DecidableEq, Repr

/-- A call, what it returns, and the modification before and after it. -/
structure Turn where
  call : Call
  before : Modification
  answer : Answer
  after : Modification
deriving DecidableEq, Repr

def failure? {α : Type} : Except Key α → Option Key
  | .ok _ => none
  | .error key => some key

def answer (ev : Evaluator) (before : Modification) : Call → Turn
  | .operand expression location =>
    let evaluated := ev.operandInto expression location before
    ⟨.operand expression location, before,
      .operand (evaluated.1.toOption.getD 0) (failure? evaluated.1), evaluated.2⟩
  | .constant expression location limit =>
    let evaluated := ev.constantInto expression location limit before
    ⟨.constant expression location limit, before,
      .constant (evaluated.1.toOption.getD .blank) (failure? evaluated.1), evaluated.2⟩

/-- Answers calls one after the other, each with the modification that the one before left. -/
def turns (ev : Evaluator) (before : Modification) : List Call → List Turn
  | [] => []
  | call :: later => ev.answer before call :: ev.turns (ev.answer before call).after later

/-- How many adjustments a term of an address constant asks for. -/
def adjustmentsOf (ev : Evaluator) (term : Bytes) : Nat :=
  if term = star then 1
  else
    match ev.symbols.get? term with
    | some symbol => if symbol.usage = .equated then symbol.relocations.toNat else 1
    | none => 0

/-- How many adjustments the terms of an expression ask for. -/
def adjustmentsIn (ev : Evaluator) (expression : Bytes) : Nat :=
  ((signedTerms expression).map fun term => ev.adjustmentsOf term.1).sum

/-- What a call may do to its modification, and what it then returns. -/
inductive Effect (ev : Evaluator) : Turn → Prop
  | operandFails {expression : Bytes} {location : Int} {before : Modification} {key : Key} :
      Effect ev ⟨.operand expression location, before, .operand 0 (some key), before⟩
  | operandAdds {expression : Bytes} {location value : Int} {before : Modification}
      {added : List Adjustment} :
      Effect ev ⟨.operand expression location, before, .operand value none, before.append added⟩
  | constantFails {expression : Bytes} {location limit : Int} {before : Modification} {key : Key} :
      Effect ev
        ⟨.constant expression location limit, before, .constant .blank (some key), before⟩
  | constantAdds {expression : Bytes} {location limit : Int} {before : Modification}
      {found : Constant} {added : List Adjustment} (counted : found.relocations = added.length)
      (bare : found.literal = true ∨ found.absolute = true → found.relocations = 0)
      (terms : found.relocations =
        if found.absolute then 0 else (ev.adjustmentsIn (unmark expression).2 : Int)) :
      Effect ev
        ⟨.constant expression location limit, before, .constant found none, before.append added⟩

variable {ev : Evaluator} {expression term : Bytes} {location limit : Int}

/-! ### Address constants -/

theorem TermOfConstant.length_adjustments {isFirst positive : Bool} {found : ConstantTerm}
    (evaluated : ev.TermOfConstant location isFirst positive term found) :
    found.adjustments.length = ev.adjustmentsOf term := by
  unfold adjustmentsOf
  cases evaluated with
  | here isStar => rw [if_pos isStar]; rfl
  | inside other known isLocal =>
    rw [if_neg other, known]
    exact (if_neg (Symbol.ne_equated_of_isLocal isLocal)).symm
  | external other known usage =>
    rw [if_neg other, known]
    exact (if_neg (by simp [usage])).symm
  | equated other known usage =>
    rw [if_neg other, known]
    simp [usage]
  | number other absent =>
    rw [if_neg other, absent]
    rfl

theorem constantOf_absolute {absolute : Bool} {terms : List ConstantTerm} {operators : Bytes}
    {found : Constant} (made : constantOf absolute terms operators = .ok found) :
    found.absolute = absolute := by
  unfold constantOf at made
  dsimp only at made
  generalize (if terms.any (·.external) then -Word.lastAddress else 0) = low at made
  split at made
  · cases made
    rfl
  · cases made

theorem TermOfConstant.bare {isFirst positive : Bool} {found : ConstantTerm}
    (evaluated : ev.TermOfConstant location isFirst positive term found)
    (literal : found.literal = true) : found.adjustments = [] := by
  cases evaluated with
  | here | inside | external => cases literal
  | @equated symbol other known usage =>
    have none : symbol.relocations.toNat = 0 := by simpa using literal
    rw [none]
    rfl
  | number => rfl

/-- Terms that are evaluated one by one have the adjustments that they ask for. -/
theorem sum_constantTerms {terms : List (Bytes × UInt8)} {read all : List ConstantTerm}
    (evaluated : ev.constantTerms location read terms = .ok all) :
    (all.map (·.adjustments.length)).sum = (read.map (·.adjustments.length)).sum +
      (terms.map fun term => ev.adjustmentsOf term.1).sum := by
  induction terms generalizing read with
  | nil =>
    cases evaluated
    rw [List.map_reverse, List.sum_reverse]
    rfl
  | cons first later ih =>
    simp only [constantTerms] at evaluated
    split at evaluated
    · cases evaluated
    · rename_i found known
      rw [ih evaluated, List.map_cons, List.sum_cons, List.map_cons, List.sum_cons,
        (constantTerm_ok known).length_adjustments]
      omega

/-- An address constant has as many adjustments as its terms ask for, unless it is absolute. -/
theorem relocations_of_constant {found : Constant}
    (value : ev.constant expression location limit = .ok found) :
    (found.literal = true ∨ found.absolute = true → found.relocations = 0) ∧
      found.relocations =
        if found.absolute then 0 else (ev.adjustmentsIn (unmark expression).2 : Int) := by
  obtain ⟨_, terms, evaluated, made⟩ := unmarkedConstant_ok value
  obtain ⟨_, literal, adjustments, _⟩ := constantOf_ok made
  have absolute := constantOf_absolute made
  have asked : (terms.flatMap (·.adjustments)).length = ev.adjustmentsIn (unmark expression).2 := by
    rw [List.length_flatMap, sum_constantTerms evaluated]
    exact Nat.zero_add _
  have bare : terms.all (·.literal) = true → terms.flatMap (·.adjustments) = [] := by
    intro all
    have each : ∀ term ∈ terms, term.literal = true → term.adjustments = [] :=
      (constantTerms_ok (fun known => (constantTerm_ok known).bare) (by simp) evaluated).2
    exact List.flatMap_eq_nil_iff.2 fun term member =>
      each term member (List.all_eq_true.1 all term member)
  rw [← literal, ← absolute] at adjustments
  rw [← literal] at bare
  rw [Constant.relocations, adjustments, ← asked]
  cases isLiteral : found.literal with
  | true =>
    rw [bare isLiteral]
    simp
  | false => cases found.absolute <;> simp

/-! ### Runs -/

theorem effect_answer (before : Modification) (call : Call) : ev.Effect (ev.answer before call) := by
  cases call with
  | operand expression location =>
    cases value : ev.operand expression location with
    | error key =>
      simp only [answer, operandInto, value]
      exact .operandFails
    | ok result =>
      simp only [answer, operandInto, value]
      exact .operandAdds
  | constant expression location limit =>
    cases value : ev.constant expression location limit with
    | error key =>
      simp only [answer, constantInto, value]
      exact .constantFails
    | ok found =>
      obtain ⟨bare, terms⟩ := relocations_of_constant value
      simp only [answer, constantInto, value]
      exact .constantAdds rfl bare terms

/-- Adjustments are only added, and after those that are there. -/
theorem Effect.appends {turn : Turn} (effect : ev.Effect turn) :
    ∃ added, turn.after = turn.before.append added := by
  cases effect with
  | operandFails | constantFails => exact ⟨[], by simp [Modification.append]⟩
  | operandAdds | constantAdds => exact ⟨_, rfl⟩

@[simp] theorem answer_before (before : Modification) (call : Call) :
    (ev.answer before call).before = before := by
  cases call <;> rfl

/-- However calls follow each other, each has its effect on the modification that comes to it, which
is the first one with the adjustments that were added since. -/
theorem turns_effect (ev : Evaluator) (record : Modification) (calls : List Call) :
    ∀ turn ∈ ev.turns record calls,
      ev.Effect turn ∧ ∃ earlier, turn.before = record.append earlier := by
  -- The later calls start from what the first one leaves, so the induction is for every record.
  induction calls generalizing record with
  | nil => simp [turns]
  | cons call later ih =>
    intro turn member
    rcases List.mem_cons.1 member with rfl | afterwards
    · exact ⟨effect_answer record call, [], by simp [Modification.append]⟩
    · have first : ev.Effect (ev.answer record call) := effect_answer record call
      obtain ⟨added, extended⟩ := first.appends
      obtain ⟨effect, earlier, continued⟩ := ih _ turn afterwards
      refine ⟨effect, added ++ earlier, ?_⟩
      rw [continued, extended, answer_before, Modification.append_append]

theorem turns_effect_sample :
    let gathered := Modification.blank.append [⟨true, ascii "PROG"⟩, ⟨true, ascii "PROG"⟩]
    let added := [⟨true, ascii "PROG"⟩, ⟨true, ascii "PROG"⟩, ⟨false, ascii "PROG"⟩]
    let failing : Turn :=
      ⟨.constant (ascii "AA-Nowhere") 20 3, gathered, .constant .blank (some .undefined), gathered⟩
    let adding : Turn :=
      ⟨.constant (ascii "Twice-AA") 20 3, gathered, .constant ⟨10, added, false, false⟩ none,
        gathered.append added⟩
    let calls := [.operand (ascii "*+BB") 14, .constant (ascii "AA-Nowhere") 20 3,
      .constant (ascii "Twice-AA") 20 3]
    (failing ∈ sample.turns .blank calls ∧ sample.Effect failing ∧
      ∃ earlier, failing.before = Modification.blank.append earlier) ∧
      (adding ∈ sample.turns .blank calls ∧ sample.Effect adding ∧
        ∃ earlier, adding.before = Modification.blank.append earlier) := by
  intro gathered added failing adding calls
  have fails : failing ∈ sample.turns .blank calls := by decide +kernel
  have adds : adding ∈ sample.turns .blank calls := by decide +kernel
  exact ⟨⟨fails, turns_effect sample .blank calls failing fails⟩,
    ⟨adds, turns_effect sample .blank calls adding adds⟩⟩

end Expression.Evaluator

end WordAssembler

import WordAssembler.Proofs.MovedWords
import WordAssembler.Proofs.Symbols

/-!
Equated symbols. An equated value is an address of memory, except that of a symbol equated to the
location counter by itself, which may stand just past the end of memory. The relocatable
contributions to a value grow four times at most with each equate, so they are counted exactly as
long as a source has fewer equates than a 64-bit integer has pairs of bits.
-/

set_option autoImplicit false

namespace WordAssembler

open Expression

/-! ### Values -/

theorem Operand.ofToken_text (token : Token) :
    ofToken token = absent ∨ (ofToken token).text = token.text := by
  unfold ofToken
  split <;> simp

/-- The location counter by itself is written as an expression. -/
theorem Operand.kind_of_star {line : Bytes}
    (alone : (ofToken (Token.next line).1).text = Expression.star) :
    (ofToken (Token.next line).1).kind = .expression := by
  rcases ofToken_text (Token.next line).1 with absent | same
  · rw [absent] at alone
    cases alone
  · rw [same] at alone
    have uncommented : (Token.next line).1.kind ≠ .comment := by
      intro comment
      have colon := Token.head_of_next_comment comment
      rw [alone] at colon
      revert colon
      decide
    have kind : (Token.next line).1.kind = .expression := by
      rw [Token.next_kind uncommented, alone]
      rfl
    simp only [ofToken, kind]

/-- The value of an equate by an expression is the location counter or an address of memory. -/
theorem Expression.Evaluator.equate_value {ev : Evaluator} {expression : Bytes}
    {location limit : Int} {found : Equate}
    (equated : ev.equate expression location limit = .ok found) :
    expression = Expression.star ∧ found = ⟨location, 1⟩ ∨
      expression ≠ Expression.star ∧ isAddress found.value = true := by
  by_cases alone : expression = star
  · rw [equate, if_pos alone] at equated
    cases equated
    exact Or.inl ⟨alone, rfl⟩
  · obtain ⟨_, inside, _⟩ := equate_ok equated
    exact Or.inr ⟨alone, inside.resolve_left alone⟩

/-- An equate gives the location counter, if it stands by itself, or else an address of memory. -/
theorem Operand.Equates.value {known : Evaluator} {location limit : Int} {line : Bytes}
    {found : Evaluator.Equate}
    (equates : (ofToken (Token.next line).1).Equates known location limit found) :
    (ofToken (Token.next line).1).text = Expression.star ∧ found.value = location ∨
      (ofToken (Token.next line).1).text ≠ Expression.star ∧ isAddress found.value = true := by
  cases equates with
  | number numeric inside =>
    refine Or.inr ⟨fun alone => ?_, ?_⟩
    · rw [kind_of_star alone] at numeric
      cases numeric
    · simp [isAddress, ofToken_next_nonneg line, inside]
  | expression numberless value =>
    rcases Evaluator.equate_value value with ⟨alone, rfl⟩ | inside
    · exact Or.inl ⟨alone, rfl⟩
    · exact Or.inr inside

/-- A symbol is equated after a line if it was before, or else the line equates it. -/
theorem Enters.equated_cases {assembler : Assembler} {source : Bytes} {known : Evaluator}
    {location : Int} {next : Symbol.Table} (enters : Enters assembler source known location next)
    {label : Bytes} {symbol : Symbol} (found : next.get? label = some symbol)
    (equated : symbol.usage = .equated) :
    known.symbols.get? label = some symbol ∨
      assembler.label? source = some label ∧ known.symbols.get? label = none ∧
      ∃ directive operand value, assembler.directive? source = some (directive, operand) ∧
        (directive = .equ ∨ directive = .eque) ∧
        operand.Equates known location directive.operatorLimit value ∧
        symbol.value = value.value ∧ symbol.relocations = value.relocations := by
  have other : ∀ {added : Symbol}, added.usage ≠ .equated →
      (known.symbols.insert added).get? label = some symbol →
      known.symbols.get? label = some symbol := by
    intro added usage found
    rcases Symbol.Table.get?_insert_cases found with ⟨_, rfl⟩ | old
    · exact absurd equated usage
    · exact old
  cases enters with
  | nothing => exact Or.inl found
  | program name load operand said =>
    unfold Symbol.Table.extend at found
    split at found
    · exact Or.inl found
    · exact Or.inl (other (by simp) found)
  | label name address named absent => exact Or.inl (other (by simp) found)
  | place old address named at_ usage unlocated => exact Or.inl (other (by simp [usage]) found)
  | equate name directive operand value named said equates absent finds =>
    rcases Symbol.Table.get?_insert_cases found with ⟨rfl, rfl⟩ | old
    · exact Or.inr ⟨named, absent, directive, operand, value, said, equates, finds, rfl, rfl⟩
    · exact Or.inl old
  | entry operand said kind absent => exact Or.inl (other (by simp) found)
  | promote operand known said kind at_ usage => exact Or.inl (other (by simp) found)
  | external operand said kind absent => exact Or.inl (other (by simp) found)

namespace Reading

/-- A line equates a label that was not known before to an operand. -/
structure EquatesLabel (assembler : Assembler) (sources : List Bytes) (j : Nat) (label : Bytes)
    (operand : Operand) : Prop where
  named : assembler.label? (sourceLine sources j) = some label
  said : ∃ directive, assembler.directive? (sourceLine sources j) = some (directive, operand) ∧
    (directive = .equ ∨ directive = .eque)
  absent : (ofLines assembler (sources.take j)).symbols.get? label = none

/-- Every equated symbol was equated by a line, to the location counter or to an address. -/
theorem equatesLabel_of_equated {assembler : Assembler} {sources : List Bytes} {k : Nat}
    {label : Bytes} {symbol : Symbol}
    (found : (ofLines assembler (sources.take k)).symbols.get? label = some symbol)
    (equated : symbol.usage = .equated) :
    ∃ j < k, ∃ operand, EquatesLabel assembler sources j label operand ∧
      (operand.text = Expression.star ∧
          symbol.value = (ofLines assembler (sources.take j)).context.location ∨
        operand.text ≠ Expression.star ∧ isAddress symbol.value = true) := by
  induction k with
  | zero => cases found
  | succ k ih =>
    rcases (enters_take assembler sources k).equated_cases found equated with
      old | ⟨named, absent, directive, operand, value, said, equates, finds, same, _⟩
    · obtain ⟨j, earlier, rest⟩ := ih old
      exact ⟨j, Nat.lt_succ_of_lt earlier, rest⟩
    · refine ⟨k, Nat.lt_succ_self k, operand, ⟨named, ⟨directive, said, equates⟩, absent⟩, ?_⟩
      obtain ⟨_, rfl⟩ := Assembler.directive?_eq_some said
      rw [same]
      exact finds.value

end Reading

/-- At every point of a source, an equated symbol was equated by a line, and its value is not
negative. It is an address of memory, unless the line equates the symbol to the location counter by
itself and that stands just past the end of memory. -/
theorem Assembler.equated_inMemory_iff (assembler : Assembler) (text : Bytes) (k : Nat)
    (label : Bytes) (symbol : Symbol)
    (found : (Reading.ofLines assembler ((Lines.read text).lines.take k)).symbols.get? label =
      some symbol) (equated : symbol.usage = .equated) :
    0 ≤ symbol.value ∧ ∃ j < k, ∃ operand,
      Reading.EquatesLabel assembler (Lines.read text).lines j label operand ∧
        (symbol.value ≤ Word.lastAddress ↔ ¬ (operand.text = Expression.star ∧
          (Reading.ofLines assembler ((Lines.read text).lines.take j)).context.location =
            Word.lastAddress + 1)) ∧
        (operand.text = Expression.star → symbol.value =
          (Reading.ofLines assembler ((Lines.read text).lines.take j)).context.location) := by
  obtain ⟨j, earlier, operand, equates, value⟩ := Reading.equatesLabel_of_equated found equated
  have bounded := Reading.ofLines_bounded assembler ((Lines.read text).lines.take j)
  have lower := bounded.lower
  have upper := bounded.upper
  rcases value with ⟨alone, here⟩ | ⟨longer, inside⟩
  · rw [here]
    refine ⟨lower, j, earlier, operand, equates, ?_, fun _ => rfl⟩
    simp only [alone, true_and]
    omega
  · rw [isAddress_iff] at inside
    refine ⟨inside.1, j, earlier, operand, equates, ?_, fun alone => absurd alone longer⟩
    simp [longer, inside.2]

/-- A source with a symbol equated to the location counter past the end of memory. -/
def topSource : Bytes := ascii "PROG START 1023\n NOP\nTOP EQU *\n END PROG"

theorem get?_topSource :
    (Reading.ofLines {} ((Lines.read topSource).lines.take 3)).symbols.get? (ascii "TOP") =
      some ⟨ascii "TOP", some 1024, .equated, 1024, 1⟩ := by decide +kernel

/-- Only the location counter gives the symbol its value. -/
theorem Assembler.equated_inMemory_iff_topSource :
    (Reading.ofLines {} ((Lines.read topSource).lines.take 3)).symbols.get? (ascii "TOP") =
        some ⟨ascii "TOP", some 1024, .equated, 1024, 1⟩ ∧
      ∃ j < 3, ∃ operand,
        Reading.EquatesLabel {} (Lines.read topSource).lines j (ascii "TOP") operand ∧
          operand.text = Expression.star ∧
          (Reading.ofLines {} ((Lines.read topSource).lines.take j)).context.location =
            Word.lastAddress + 1 := by
  obtain ⟨_, j, earlier, operand, equates, inside, _⟩ :=
    Assembler.equated_inMemory_iff {} topSource 3 (ascii "TOP") _ get?_topSource rfl
  refine ⟨get?_topSource, j, earlier, operand, equates, Decidable.byContradiction fun other => ?_⟩
  exact absurd (inside.2 other) (by decide)

/-- An equated value may lie past the end of memory. -/
theorem Assembler.equated_not_inMemory : ¬ ∀ (assembler : Assembler) (text : Bytes) (k : Nat)
    (label : Bytes) (symbol : Symbol),
    (Reading.ofLines assembler ((Lines.read text).lines.take k)).symbols.get? label =
      some symbol → symbol.usage = .equated →
    0 ≤ symbol.value ∧ symbol.value ≤ Word.lastAddress := by
  intro inside
  have top := (inside {} topSource 3 (ascii "TOP") _ get?_topSource rfl).2
  exact absurd top (by decide)

/-! ### Relocatable contributions -/

theorem Numeral.wrap_of_small {value : Int} (lower : -2 ^ 63 ≤ value) (upper : value < 2 ^ 63) :
    wrap value = value := by
  have half : ((powerOfTwo 64 : Nat) : Int) = 2 ^ 64 := rfl
  refine Int.bmod_eq_of_le ?_ ?_ <;> rw [half] <;> omega

namespace Symbol.Table

/-- Every symbol has some relocatable contributions at most. -/
def Counts (most : Nat) (table : Table) : Prop :=
  ∀ label symbol, table.get? label = some symbol →
    0 ≤ symbol.relocations ∧ symbol.relocations ≤ most

theorem Counts.mono {most more : Nat} {table : Table} (counts : table.Counts most)
    (grown : most ≤ more) : table.Counts more := by
  intro label symbol found
  obtain ⟨lower, upper⟩ := counts label symbol found
  exact ⟨lower, by omega⟩

theorem Counts.insert {most : Nat} {table : Table} {symbol : Symbol} (counts : table.Counts most)
    (lower : 0 ≤ symbol.relocations) (upper : symbol.relocations ≤ most) :
    (table.insert symbol).Counts most := by
  intro label other found
  rcases get?_insert_cases found with ⟨_, rfl⟩ | old
  · exact ⟨lower, upper⟩
  · exact counts label other old

end Symbol.Table

namespace Expression.Evaluator

variable {ev : Evaluator} {most : Nat} {location limit : Int} (counts : ev.symbols.Counts most)
  (positive : 1 ≤ most)
include counts positive

theorem equateTerm_counts {isFirst : Bool} {term : Bytes} {found : Equate}
    (value : ev.equateTerm location isFirst term = .ok found) :
    0 ≤ found.relocations ∧ found.relocations ≤ most := by
  cases equateTerm_ok value with
  | here | inside =>
    dsimp only
    omega
  | equated _ known _ => exact counts term _ known
  | number =>
    dsimp only
    omega

/-- Terms are counted exactly while the sum is small. -/
theorem equateTerms_counts {terms : List Bytes} {values result : List Int}
    {counted relocations : Int} (lower : 0 ≤ counted)
    (small : counted + terms.length * most < 2 ^ 63)
    (evaluated : ev.equateTerms location values counted terms = .ok (result, relocations)) :
    0 ≤ relocations ∧ relocations ≤ counted + terms.length * most := by
  induction terms generalizing values counted with
  | nil =>
    cases evaluated
    simpa using lower
  | cons term later ih =>
    have longer : ((term :: later).length : Int) * most = later.length * most + most := by
      rw [List.length_cons, Nat.cast_succ, Int.add_mul, Int.one_mul]
    have rest : 0 ≤ (later.length : Int) * most := Int.mul_nonneg (by omega) (by omega)
    rw [longer] at small ⊢
    simp only [equateTerms] at evaluated
    split at evaluated
    · cases evaluated
    · rename_i found value
      obtain ⟨first, last⟩ := equateTerm_counts counts positive value
      have exact_ : countMore counted found.relocations = counted + found.relocations :=
        Numeral.wrap_of_small (by omega) (by omega)
      rw [exact_] at evaluated
      obtain ⟨above, below⟩ := ih (by omega) (by omega) evaluated
      exact ⟨above, by omega⟩

/-- An equate counts the contributions of four terms at most. -/
theorem equate_counts {expression : Bytes} {found : Equate} (few : limit ≤ 3)
    (small : 4 * most < 2 ^ 63) (value : ev.equate expression location limit = .ok found) :
    0 ≤ found.relocations ∧ found.relocations ≤ 4 * most := by
  obtain ⟨joined, _, values, evaluated, _⟩ := equate_ok value
  have operators : ((expression.filter isOperator).length : Int) ≤ 3 := by
    rcases joined.few with isStar | bounded
    · rw [isStar]
      decide
    · omega
  have length : (((signedTerms expression).map (·.1)).length : Int) ≤ 4 := by
    rw [List.length_map, joined.length]
    omega
  have most_ : (((signedTerms expression).map (·.1)).length : Int) * most ≤ 4 * most :=
    Int.mul_le_mul_of_nonneg_right length (by omega)
  obtain ⟨above, below⟩ := equateTerms_counts counts positive (Int.le_refl 0) (by omega) evaluated
  exact ⟨above, by omega⟩

end Expression.Evaluator

namespace Assembler

def isEquate (assembler : Assembler) (source : Bytes) : Bool :=
  match assembler.directive? source with
  | some (.equ, _) | some (.eque, _) => true
  | _ => false

def equateCount (assembler : Assembler) (sources : List Bytes) : Nat :=
  sources.countP fun source => assembler.isEquate (dropTrailing Lines.isCarriageReturn source)

theorem isEquate_of_directive? {assembler : Assembler} {source : Bytes} {directive : Directive}
    {operand : Operand} (said : assembler.directive? source = some (directive, operand))
    (equates : directive = .equ ∨ directive = .eque) : assembler.isEquate source = true := by
  rcases equates with rfl | rfl <;> simp [isEquate, said]

theorem equateCount_take_succ (assembler : Assembler) (sources : List Bytes) (k : Nat) :
    assembler.equateCount (sources.take (k + 1)) = assembler.equateCount (sources.take k) +
      if assembler.isEquate (sourceLine sources k) then 1 else 0 := by
  cases here : sources[k]? with
  | none =>
    have blank : assembler.isEquate (sourceLine sources k) = false := by
      rw [sourceLine, here]
      rfl
    rw [List.take_add_one, here, blank]
    simp
  | some source =>
    rw [Reading.take_succ_of_getElem? here, sourceLine_of_getElem? here, equateCount, equateCount,
      List.countP_append, List.countP_singleton]

end Assembler

/-- A line other than an equate adds no contributions, and an equate makes four times as many at
most. -/
theorem Enters.counts {assembler : Assembler} {source : Bytes} {known : Evaluator}
    {location : Int} {most : Nat} {next : Symbol.Table}
    (enters : Enters assembler source known location next)
    (counts : known.symbols.Counts most) (positive : 1 ≤ most)
    (small : assembler.isEquate source = true → 4 * most < 2 ^ 63) :
    next.Counts (if assembler.isEquate source then 4 * most else most) := by
  have unchanged : ∀ {table : Symbol.Table}, table.Counts most →
      table.Counts (if assembler.isEquate source then 4 * most else most) := by
    intro table same
    split
    · exact same.mono (by omega)
    · exact same
  have added : ∀ {symbol : Symbol}, symbol.relocations = 0 →
      (known.symbols.insert symbol).Counts most :=
    fun none => counts.insert (by omega) (by omega)
  cases enters with
  | nothing => exact unchanged counts
  | program name load operand said =>
    refine unchanged ?_
    unfold Symbol.Table.extend
    split
    · exact counts
    · exact added rfl
  | label name address named absent => exact unchanged (added rfl)
  | place symbol address named found entry unlocated =>
    obtain ⟨lower, upper⟩ := counts _ symbol found
    exact unchanged (counts.insert lower upper)
  | equate name directive operand found named said equates absent finds =>
    have equate := Assembler.isEquate_of_directive? said equates
    rw [if_pos equate]
    have few : directive.operatorLimit ≤ 3 := by cases directive <;> decide
    have bound : 0 ≤ found.relocations ∧ found.relocations ≤ 4 * most := by
      cases finds with
      | number numeric inside =>
        dsimp only
        omega
      | expression numberless value =>
        exact Evaluator.equate_counts counts positive few (small equate) value
    exact (counts.mono (by omega)).insert bound.1 bound.2
  | entry operand said kind absent => exact unchanged (added rfl)
  | promote operand symbol said kind found usage =>
    obtain ⟨lower, upper⟩ := counts _ symbol found
    exact unchanged (counts.insert lower upper)
  | external operand said kind absent => exact unchanged (added rfl)

namespace Reading

/-- The most equates whose contributions are always counted exactly. -/
def mostEquates : Nat := 31

/-- The contributions to the symbols of a source with few equates are counted exactly. -/
theorem take_counts (assembler : Assembler) {sources : List Bytes} {k : Nat}
    (few : assembler.equateCount (sources.take k) ≤ mostEquates) :
    (ofLines assembler (sources.take k)).symbols.Counts
      (4 ^ assembler.equateCount (sources.take k)) := by
  induction k with
  | zero => exact nofun
  | succ k ih =>
    have grows := assembler.equateCount_take_succ sources k
    rw [grows] at few ⊢
    have counts := ih (by omega)
    have positive : 1 ≤ 4 ^ assembler.equateCount (sources.take k) := Nat.pow_pos (by decide)
    have small : assembler.isEquate (sourceLine sources k) = true →
        4 * 4 ^ assembler.equateCount (sources.take k) < 2 ^ 63 := by
      intro equate
      rw [if_pos equate] at few
      calc 4 * 4 ^ assembler.equateCount (sources.take k)
        _ = 4 ^ (assembler.equateCount (sources.take k) + 1) := by rw [Nat.pow_succ, Nat.mul_comm]
        _ ≤ 4 ^ mostEquates := Nat.pow_le_pow_right (by decide) few
        _ < 2 ^ 63 := by decide
    have entered := (enters_take assembler sources k).counts counts positive small
    split at entered
    · rename_i equate
      rwa [if_pos equate, Nat.pow_succ, Nat.mul_comm]
    · rename_i plain
      rwa [if_neg plain, Nat.add_zero]

theorem ofLines_counts (assembler : Assembler) {sources : List Bytes}
    (few : assembler.equateCount sources ≤ mostEquates) :
    (ofLines assembler sources).symbols.Counts (4 ^ assembler.equateCount sources) := by
  rw [← List.take_length (l := sources)] at few ⊢
  exact take_counts assembler few

end Reading

end WordAssembler

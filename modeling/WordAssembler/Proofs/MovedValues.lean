import WordAssembler.Proofs.Displaced
import WordAssembler.Proofs.Moved

/-!
Values of expressions in a program that was moved. A value has the same adjustments at both places,
and the words it is stored in differ by the distance as often as the program itself is adjusted for.
-/

set_option autoImplicit false

namespace WordAssembler

theorem Symbol.moved_address {symbol : Symbol} (distance : Int)
    (located : symbol.location.isSome = true) :
    (symbol.moved distance).address = symbol.address + distance := by
  obtain ⟨location, found⟩ := Option.isSome_iff_exists.1 located
  simp [Symbol.address, Symbol.moved, found]

namespace Expression.Evaluator

def moved (distance : Int) (ev : Evaluator) : Evaluator :=
  { ev with symbols := ev.symbols.moved distance }

/-- The symbols depend on the load address by their locations alone, labels have one, and no
external symbol has the name of the program. -/
structure Movable (ev : Evaluator) : Prop where
  flat : ∀ symbol ∈ ev.symbols.symbols, symbol.relocations = 0
  located : ∀ symbol ∈ ev.symbols.symbols, symbol.isLocal = true → symbol.location.isSome = true
  foreign : ∀ symbol ∈ ev.symbols.symbols, symbol.usage = .external → symbol.label ≠ ev.program

variable {ev : Evaluator} {location distance : Int} {term : Bytes}

/-! ### Address constants -/

theorem Movable.displaced (movable : ev.Movable) (distance : Int) :
    ev.Displaced distance (ev.moved distance) := by
  refine ⟨rfl, fun label => ?_⟩
  have table : (ev.moved distance).symbols = ev.symbols.moved distance := rfl
  rw [table, Symbol.Table.get?_moved]
  cases known : ev.symbols.get? label with
  | none => exact .none
  | some symbol =>
    have member := Symbol.Table.mem_of_get? known
    refine .some ⟨rfl, rfl, rfl, fun inside => ?_, fun _ => ?_⟩
    · rw [Symbol.moved_address distance (movable.located symbol member inside)]
    · rw [movable.flat symbol member, mul_zero, add_zero]
      rfl

theorem Movable.adjustable (movable : ev.Movable) : ev.Adjustable :=
  ⟨fun symbol member => by rw [movable.flat symbol member], movable.foreign⟩

/-- A term is adjusted for once at most, as no symbol counts the load address. -/
theorem constantTerm_few (movable : ev.Movable) {isFirst positive : Bool} {found : ConstantTerm}
    (known : ev.constantTerm location isFirst positive term = .ok found) :
    found.adjustments.length ≤ 1 := by
  cases constantTerm_ok known with
  | here | inside | external => exact Nat.le_refl 1
  | equated _ listed _ => simp [movable.flat _ (Symbol.Table.mem_of_get? listed)]
  | number => exact Nat.zero_le 1

theorem adjustments_length {terms : List ConstantTerm}
    (single : ∀ term ∈ terms, term.adjustments.length ≤ 1) :
    (terms.flatMap (·.adjustments)).length ≤ terms.length := by
  induction terms with
  | nil => exact Nat.le_refl 0
  | cons term terms ih =>
    have one := single term List.mem_cons_self
    have rest := ih fun other member => single other (List.mem_cons_of_mem _ member)
    rw [List.flatMap_cons, List.length_append, List.length_cons]
    omega

/-- An address constant at both places. -/
structure Constant.Moves (program : Bytes) (distance : Int) (first second : Constant) : Prop where
  adjustments : second.adjustments = first.adjustments
  value : SameWord second.value (first.value + distance * net program first.adjustments)
  few : first.adjustments.length ≤ mostAdjustments
  small : -Word.lastAddress ≤ first.value ∧ first.value ≤ Word.lastAddress
  smallMoved : -Word.lastAddress ≤ second.value ∧ second.value ≤ Word.lastAddress

/-- There are no more adjustments than terms. -/
theorem constant_few (movable : ev.Movable) {expression : Bytes} {limit : Int} {found : Constant}
    (short : limit < mostAdjustments) (known : ev.constant expression location limit = .ok found) :
    found.adjustments.length ≤ mostAdjustments := by
  obtain ⟨joined, terms, evaluated, made⟩ := unmarkedConstant_ok known
  obtain ⟨_, _, adjustments, _⟩ := constantOf_ok made
  obtain ⟨length, single⟩ := constantTerms_ok (constantTerm_few movable)
    (fun _ none => absurd none List.not_mem_nil) evaluated
  have flat := adjustments_length single
  have operators : ((unmark expression).2.filter isOperator).length < mostAdjustments := by
    rcases joined.few with isStar | few
    · rw [isStar]
      decide
    · omega
  rw [List.length_nil, joined.length] at length
  rw [adjustments]
  split
  · exact Nat.zero_le _
  · omega

/-- An address constant without a mark at both places. -/
theorem constant_moves (movable : ev.Movable) {expression : Bytes} {limit : Int}
    {first second : Constant} (plain : expression.head? ≠ some (byte '+'))
    (short : limit < mostAdjustments) (here : ev.constant expression location limit = .ok first)
    (there : (ev.moved distance).constant expression (location + distance) limit = .ok second) :
    first.Moves ev.program distance second := by
  have moves := constant_displaced (movable.displaced distance) movable.adjustable
    (.refl (location + distance)) plain here there
  exact ⟨moves.adjustments, moves.value.sameWord, constant_few movable short here,
    constant_isSmall here, constant_isSmall there⟩

/-! ### Operand expressions -/

theorem operandTerm_moves (movable : ev.Movable) {operator : UInt8} {value valueMoved : Int}
    {adjustments adjustmentsMoved : List Adjustment}
    (here : ev.operandTerm operator term = .ok (value, adjustments))
    (there : (ev.moved distance).operandTerm operator term = .ok (valueMoved, adjustmentsMoved)) :
    adjustmentsMoved = adjustments ∧ adjustments.length ≤ 1 ∧
      (if operator == byte '+' then valueMoved - value else value - valueMoved) =
        distance * net ev.program adjustments := by
  have unchanged : ∀ value : Int,
      (if (operator == byte '+') = true then value - value else value - value) =
        distance * net ev.program [] := by
    intro value
    split <;> simp
  have moved : ∀ {other : Int × List Adjustment},
      (ev.moved distance).TermOfOperand operator term other →
      other = (valueMoved, adjustmentsMoved) := fun same =>
    Except.ok.inj ((operandTerm_iff.2 same).symm.trans there)
  have table : (ev.moved distance).symbols = ev.symbols.moved distance := rfl
  have found : ∀ {symbol : Symbol}, ev.symbols.get? term = some symbol →
      (ev.moved distance).symbols.get? term = some (symbol.moved distance) := by
    intro symbol known
    rw [table, Symbol.Table.get?_moved, known, Option.map_some]
  cases operandTerm_iff.1 here with
  | number kind read small =>
    cases moved (.number kind read small)
    exact ⟨rfl, Nat.zero_le 1, unchanged value⟩
  | equated kind length known usage =>
    cases moved (.equated kind length (found known) usage)
    exact ⟨rfl, Nat.zero_le 1, unchanged _⟩
  | @inside symbol kind length known isLocal =>
    have located := movable.located symbol (Symbol.Table.mem_of_get? known) isLocal
    cases moved (.inside kind length (found known) (by rwa [Symbol.moved_isLocal]))
    refine ⟨rfl, Nat.le_refl 1, ?_⟩
    rw [Symbol.moved_address distance located, ownAdjustment, net_own]
    split <;> simp

theorem operandAfterStar_moves (movable : ev.Movable) {value valueMoved : Int}
    {adjustments adjustmentsMoved : List Adjustment}
    (here : ev.operandAfterStar location term = .ok (value, adjustments))
    (there : (ev.moved distance).operandAfterStar (location + distance) term =
      .ok (valueMoved, adjustmentsMoved)) :
    adjustmentsMoved = adjustments ∧ adjustments.length ≤ mostAdjustments ∧
      SameWord valueMoved (value + distance * net ev.program adjustments) := by
  cases term with
  | nil => cases here
  | cons operator term =>
    simp only [operandAfterStar] at here there
    split at here
    · cases here
    · rename_i second
      rw [if_neg second] at there
      split at here
      · rename_i known
        rw [if_pos known] at there
        split at here
        · cases here
        · rename_i operand more found
          split at there
          · cases there
          · rename_i operandMoved moreMoved foundMoved
            obtain ⟨rfl, few, moves⟩ := operandTerm_moves movable found foundMoved
            split at here
            · split at there
              · cases here
                cases there
                refine ⟨rfl, Nat.le_trans (Nat.succ_le_succ few) (by decide), ?_⟩
                have sum := apply_sameWord known location operand
                have sumMoved := apply_sameWord known (location + distance) operandMoved
                refine sumMoved.trans (Int.ModEq.trans ?_ (sum.symm.add_right _))
                rw [← List.singleton_append, net_append, ownAdjustment, net_own, mul_add, ← moves]
                have whole : (location + distance +
                    if (operator == byte '+') = true then operandMoved else -operandMoved) =
                    location + (if (operator == byte '+') = true then operand else -operand) +
                      (distance * 1 + if (operator == byte '+') = true then operandMoved - operand
                        else operand - operandMoved) := by
                  split <;> omega
                exact whole ▸ Int.ModEq.rfl
              · cases there
            · cases here
      · cases here

theorem operand_isAddress {expression : Bytes} {value : Int} {adjustments : List Adjustment}
    (inside : isAddress location = true)
    (found : ev.operand expression location = .ok (value, adjustments)) :
    isAddress value = true := by
  unfold operand at found
  split at found
  · cases found
    exact inside
  · split at found
    · cases found
    · split at found
      · split at found
        · unfold operandAfterStar at found
          dsimp only at found
          repeat' split at found
          all_goals cases found
          assumption
        · cases found
      · cases found

/-- An operand expression at both places. -/
theorem operand_moves (movable : ev.Movable) {expression : Bytes} {value valueMoved : Int}
    {adjustments adjustmentsMoved : List Adjustment}
    (here : ev.operand expression location = .ok (value, adjustments))
    (there : (ev.moved distance).operand expression (location + distance) =
      .ok (valueMoved, adjustmentsMoved)) :
    adjustmentsMoved = adjustments ∧ adjustments.length ≤ mostAdjustments ∧
      SameWord valueMoved (value + distance * net ev.program adjustments) := by
  unfold operand at here there
  split at here
  · rename_i isStar
    rw [if_pos isStar] at there
    cases here
    cases there
    refine ⟨rfl, Nat.le_add_left 1 _, ?_⟩
    simp [ownAdjustment, net_own]
  · rename_i other
    rw [if_neg other] at there
    split at here
    · cases here
    · rename_i terms parts
      rw [parts] at there
      dsimp only at there
      split at here
      · rename_i first rest
        dsimp only at there
        split at here
        · rename_i leads
          rw [if_pos leads] at there
          exact operandAfterStar_moves movable here there
        · cases here
      · cases here

end Expression.Evaluator

end WordAssembler

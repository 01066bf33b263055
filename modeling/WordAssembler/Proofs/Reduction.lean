import WordAssembler.Proofs.Arithmetic

/-!
Reduction of expressions. The values and the operators are put on stacks, the first of each on top,
and the results of the operators go back on the stack of values. The result is that of a fold from
the left in 64-bit arithmetic, over the operators that have a value on either side; surplus values
and operators play no part.
-/

set_option autoImplicit false

namespace WordAssembler.Expression

/-! ### The loop over the stacks -/

/-- With a value on top of others, the loop takes the operators in order, each with the next value,
until either run out. -/
theorem collapse_eq_foldl (operators : Bytes) (first : Int) (later : List Int) :
    collapse operators ⟨first :: later⟩ =
      (operators.zip later).foldl (fun result turn => apply turn.1 result turn.2) first := by
  induction operators generalizing first later with
  | nil => rfl
  | cons operator operators ih =>
    cases later with
    | nil => rfl
    | cons value later => exact ih (apply operator first value) later

/-- Without a value there is nothing to apply an operator to. -/
theorem collapse_empty (operators : Bytes) : collapse operators ⟨[]⟩ = 0 := by
  cases operators with
  | nil => rfl
  | cons operator operators => rfl

/-! ### The fold -/

/-- The result after one more operator and value: the value is added on `+`, subtracted on `-`, and
skipped on any other byte. -/
def combine (result : Int64) (turn : UInt8 × Int64) : Int64 :=
  if turn.1 = byte '+' then result + turn.2
  else if turn.1 = byte '-' then result - turn.2
  else result

/-- The fold from the left, from the first value over as many operators as there are values after
it; 0 if there is no value. -/
def leftFold (values : List Int64) (operators : Bytes) : Int64 :=
  let turns := min operators.length (values.length - 1)
  ((operators.take turns).zip (values.tail.take turns)).foldl combine (values.headD 0)

theorem apply_toInt (operator : UInt8) (left right : Int64) :
    apply operator left.toInt right.toInt = (combine left (operator, right)).toInt := by
  unfold apply combine
  by_cases plus : operator = byte '+'
  · rw [if_pos plus, if_pos plus, Int64.toInt_add]
    rfl
  · rw [if_neg plus, if_neg plus]
    by_cases minus : operator = byte '-'
    · rw [if_pos minus, if_pos minus, Int64.toInt_sub]
      rfl
    · rw [if_neg minus, if_neg minus]

theorem foldl_apply_toInt (operators : Bytes) (later : List Int64) (first : Int64) :
    (operators.zip (later.map Int64.toInt)).foldl (fun result turn => apply turn.1 result turn.2)
        first.toInt = ((operators.zip later).foldl combine first).toInt := by
  induction operators generalizing first later with
  | nil => rfl
  | cons operator operators ih =>
    cases later with
    | nil => rfl
    | cons value later =>
      rw [List.map_cons, List.zip_cons_cons, List.zip_cons_cons, List.foldl_cons, List.foldl_cons,
        apply_toInt]
      exact ih later _

/-- The reduction over the stacks is the fold from the left, for any numbers of 64-bit values and of
operators, whatever bytes these are. -/
theorem reduce_eq_leftFold (values : List Int64) (operators : Bytes) :
    reduce (values.map Int64.toInt) operators = (leftFold values operators).toInt := by
  rw [reduce, Stack.ofList_eq, Stack.ofList_eq]
  cases values with
  | nil =>
    rw [List.map_nil, collapse_empty, leftFold, List.tail_nil, List.take_nil, List.zip_nil_right]
    rfl
  | cons first later =>
    rw [List.map_cons, collapse_eq_foldl, foldl_apply_toInt, leftFold, List.length_cons,
      Nat.add_sub_cancel, List.tail_cons, List.headD_cons, ← List.zip_eq_zip_take_min]

-- The star is skipped, and the last value has no operator before it.
example : leftFold [9, 2, 5, 1] (ascii "-*") = 7 := by decide

end WordAssembler.Expression

import Mathlib.Data.List.Induction
import WordAssembler.Proofs.Table

/-!
Symbol tables under any operations. A label has what the last successful operation that wrote or
removed it left there, and every operation answers by that alone. The labels are listed in increasing
order, each that has a symbol and no other.
-/

set_option autoImplicit false

namespace WordAssembler.Symbol.Table

/-! ### Operations -/

/-- What can be done to a table. -/
inductive Operation where
  | add (symbol : Symbol)
  | define (label : Bytes) (location : Option Int) (usage : Usage) (value : Int)
  | get (label : Bytes)
  | replace (symbol : Symbol)
  | remove (label : Bytes)
  | contains (label : Bytes)
deriving DecidableEq, Repr

/-- What an operation answers. -/
inductive Answer where
  | done
  | symbol (found : Symbol)
  | present (known : Bool)
  | failed (fault : Fault)
deriving DecidableEq, Repr

def Answer.isFault : Answer → Bool
  | .failed _ => true
  | _ => false

namespace Operation

def label : Operation → Bytes
  | .add symbol => symbol.label
  | .define label _ _ _ => label
  | .get label => label
  | .replace symbol => symbol.label
  | .remove label => label
  | .contains label => label

/-- The answer of an operation whose label has a symbol or none: what is added must be new, and what
is read, replaced or removed must be there. -/
def answer : Operation → Option Symbol → Answer
  | .add symbol, some _ => .failed (.duplicate symbol.label)
  | .add _, none => .done
  | .define label _ _ _, some _ => .failed (.duplicate label)
  | .define _ _ _ _, none => .done
  | .get _, some known => .symbol known
  | .get label, none => .failed (.missing label)
  | .replace _, some _ => .done
  | .replace symbol, none => .failed (.missing symbol.label)
  | .remove _, some known => .symbol known
  | .remove label, none => .failed (.missing label)
  | .contains _, known => .present known.isSome

/-- What an operation that succeeds leaves at its label, a symbol or none, if it changes anything. -/
def leaves? : Operation → Option (Option Symbol)
  | .add symbol => some (some symbol)
  | .define label location usage value => some (some ⟨label, location, usage, value, 0⟩)
  | .get _ => none
  | .replace symbol => some (some symbol)
  | .remove _ => some none
  | .contains _ => none

theorem label_of_leaves? {operation : Operation} {symbol : Symbol}
    (left : operation.leaves? = some (some symbol)) : symbol.label = operation.label := by
  cases operation with
  | add other | replace other | define name location usage value =>
    cases left
    rfl
  | get name | remove name | contains name => cases left

end Operation

/-- The table that an operation gives, or the old one with a fault. -/
def changed (table : Table) : Except Fault Table → Answer × Table
  | .ok next => (.done, next)
  | .error fault => (.failed fault, table)

/-- Carries out an operation: its answer, and the table after it. -/
def perform (table : Table) : Operation → Answer × Table
  | .add symbol => table.changed (table.add symbol)
  | .define label location usage value => table.changed (table.define label location usage value)
  | .get label =>
    match table.get label with
    | .ok symbol => (.symbol symbol, table)
    | .error fault => (.failed fault, table)
  | .replace symbol => table.changed (table.replace symbol)
  | .remove label =>
    match table.remove label with
    | .ok (symbol, next) => (.symbol symbol, next)
    | .error fault => (.failed fault, table)
  | .contains label => (.present (table.contains label), table)

/-! ### Histories -/

/-- An operation and its answer. -/
structure Event where
  operation : Operation
  answer : Answer

/-- What an event left at a label. A failure leaves nothing, and neither does an operation that is
about another label. -/
def Event.left? (label : Bytes) (event : Event) : Option (Option Symbol) :=
  if event.operation.label = label ∧ event.answer.isFault = false then event.operation.leaves?
  else none

/-- What the last event that wrote or removed a label left there. -/
def lastLeft (events : List Event) (label : Bytes) : Option Symbol :=
  (events.filterMap (Event.left? label)).getLast?.join

/-- The events on a table that was empty at first, and the table after them. -/
structure History where
  events : List Event
  table : Table

namespace History

def add (history : History) (operation : Operation) : History :=
  ⟨history.events ++ [⟨operation, (history.table.perform operation).1⟩],
    (history.table.perform operation).2⟩

def ofOperations (operations : List Operation) : History :=
  operations.foldl add ⟨[], empty⟩

end History

/-! ### What an operation does -/

theorem get?_erase (table : Table) (name label : Bytes) :
    (table.erase name).get? label = if name = label then none else table.get? label := by
  rw [get?, erase, List.find?_filter]
  by_cases same : name = label
  · rw [if_pos same, List.find?_eq_none]
    intro symbol _
    simp [same]
  · rw [if_neg same]
    refine congrArg (List.find? · table.symbols) (funext fun symbol => ?_)
    by_cases found : symbol.label = label
    · simp [found, Ne.symm same]
    · simp [found]

def leave (table : Table) (label : Bytes) : Option (Option Symbol) → Table
  | some (some symbol) => table.insert symbol
  | some none => table.erase label
  | none => table

variable (table : Table)

theorem add_eq (symbol : Symbol) : table.add symbol =
    match table.get? symbol.label with
    | some _ => .error (.duplicate symbol.label)
    | none => .ok (table.insert symbol) := by
  rw [add, contains]
  cases table.get? symbol.label <;> rfl

theorem replace_eq (symbol : Symbol) : table.replace symbol =
    match table.get? symbol.label with
    | some _ => .ok (table.insert symbol)
    | none => .error (.missing symbol.label) := by
  rw [replace, contains]
  cases table.get? symbol.label <;> rfl

/-- What an operation does is told by what its label has. -/
theorem perform_eq (operation : Operation) : table.perform operation =
    (operation.answer (table.get? operation.label),
      bif (operation.answer (table.get? operation.label)).isFault then table
      else table.leave operation.label operation.leaves?) := by
  cases operation with
  | add symbol =>
    simp only [perform, add_eq, Operation.label]
    cases table.get? symbol.label <;> rfl
  | define label location usage value =>
    simp only [perform, define, add_eq, Operation.label]
    cases table.get? label <;> rfl
  | get label =>
    simp only [perform, get, Operation.label]
    cases table.get? label <;> rfl
  | replace symbol =>
    simp only [perform, replace_eq, Operation.label]
    cases table.get? symbol.label <;> rfl
  | remove label =>
    simp only [perform, remove, get, Operation.label]
    cases table.get? label <;> rfl
  | contains label => rfl

theorem perform_answer (operation : Operation) :
    (table.perform operation).1 = operation.answer (table.get? operation.label) :=
  congrArg Prod.fst (table.perform_eq operation)

theorem perform_of_isFault {operation : Operation}
    (failed : (table.perform operation).1.isFault = true) :
    (table.perform operation).2 = table := by
  rw [perform_answer] at failed
  rw [perform_eq, failed]
  rfl

theorem get?_leave (operation : Operation) (label : Bytes) :
    (table.leave operation.label operation.leaves?).get? label =
      if operation.label = label then operation.leaves?.getD (table.get? label)
      else table.get? label := by
  cases left : operation.leaves? with
  | none => simp [leave]
  | some result =>
    cases result with
    | none => exact get?_erase table operation.label label
    | some symbol => rw [leave, get?_insert, Operation.label_of_leaves? left, Option.getD_some]

/-- An operation changes nothing but what it leaves at its label. -/
theorem get?_perform (operation : Operation) (label : Bytes) :
    (table.perform operation).2.get? label =
      (Event.left? label ⟨operation, (table.perform operation).1⟩).getD (table.get? label) := by
  rw [perform_eq, Event.left?]
  dsimp only
  cases (operation.answer (table.get? operation.label)).isFault with
  | true => simp
  | false =>
    rw [cond_false, get?_leave]
    by_cases same : operation.label = label
    · simp [same]
    · simp [same]

/-! ### What a history tells -/

theorem lastLeft_concat (events : List Event) (event : Event) (label : Bytes) :
    lastLeft (events ++ [event]) label = (event.left? label).getD (lastLeft events label) := by
  rw [lastLeft, List.filterMap_append]
  cases left : event.left? label with
  | none => simp [left, lastLeft]
  | some result => simp [left]

/-- A label has what was left there last. -/
theorem History.get?_table (operations : List Operation) (label : Bytes) :
    (ofOperations operations).table.get? label =
      lastLeft (ofOperations operations).events label := by
  induction operations using List.reverseRecOn with
  | nil => rfl
  | append_singleton operations operation ih =>
    rw [ofOperations, List.foldl_append]
    change ((ofOperations operations).add operation).table.get? label =
      lastLeft ((ofOperations operations).add operation).events label
    rw [add, lastLeft_concat, ← ih]
    exact get?_perform _ operation label

theorem mem_sorted (label : Bytes) :
    label ∈ table.sorted ↔ (table.get? label).isSome = true := by
  rw [sorted, List.mem_map, Option.isSome_iff_exists]
  constructor
  · rintro ⟨symbol, member, rfl⟩
    exact ⟨symbol, get?_of_mem member⟩
  · rintro ⟨symbol, found⟩
    exact ⟨symbol, mem_of_get? found, label_of_get? found⟩

theorem sorted_increasing : table.sorted.Pairwise (· < ·) :=
  List.pairwise_map.2 table.ascending

/-- A symbol table is a finite map. After any operations on the empty table, a label has what the
last successful event about it left there, and an operation answers by that. If it fails it changes
nothing, and otherwise nothing at any other label. The labels are listed in increasing byte order,
exactly those that have a symbol, and counted by the size. -/
theorem operations_exact (operations : List Operation) (operation : Operation) :
    let history := History.ofOperations operations
    let result := history.table.perform operation
    (∀ label, history.table.get? label = lastLeft history.events label) ∧
      result.1 = operation.answer (lastLeft history.events operation.label) ∧
      (result.1.isFault = true → result.2 = history.table) ∧
      (∀ label, label ≠ operation.label → result.2.get? label = history.table.get? label) ∧
      history.table.sorted.Pairwise (· < ·) ∧
      (∀ label, label ∈ history.table.sorted ↔ (lastLeft history.events label).isSome = true) ∧
      history.table.size = history.table.sorted.length := by
  intro history result
  have known : ∀ label, history.table.get? label = lastLeft history.events label :=
    History.get?_table operations
  refine ⟨known, ?_, perform_of_isFault _, ?_, sorted_increasing _, ?_, ?_⟩
  · rw [← known]
    exact perform_answer _ operation
  · intro label other
    rw [get?_perform, Event.left?, if_neg fun about => other about.1.symm]
    rfl
  · intro label
    rw [mem_sorted, known]
  · exact (List.length_map _).symm

/-- A label is added, replaced and refused a second time; another is defined and removed, and its
lower-case spelling is a label of its own. -/
def sampleOperations : List Operation := [
  .add ⟨ascii "Loop", some 4, .label, 0, 0⟩, .define (ascii "END") none .equated 7,
  .define (ascii "End") (some 9) .label 0, .replace ⟨ascii "Loop", some 4, .entry, 0, 0⟩,
  .remove (ascii "END"), .remove (ascii "END")]

theorem operations_exact_sample :
    let table := (History.ofOperations sampleOperations).table
    let again : Operation := .add ⟨ascii "Loop", none, .external, 0, 0⟩
    (table.perform again).1 = .failed (.duplicate (ascii "Loop")) ∧
      (table.perform again).2 = table ∧
      (table.perform again).2.get? (ascii "End") = some ⟨ascii "End", some 9, .label, 0, 0⟩ ∧
      table.sorted = [ascii "End", ascii "Loop"] := by
  intro table again
  obtain ⟨_, answer, unchanged, elsewhere, _⟩ := operations_exact sampleOperations again
  have refused : (table.perform again).1 = .failed (.duplicate (ascii "Loop")) := by
    rw [answer]
    decide
  exact ⟨refused, unchanged (by rw [refused]; rfl),
    (elsewhere (ascii "End") (by decide)).trans (by decide), by decide⟩

end WordAssembler.Symbol.Table

import Mathlib.Data.List.Induction
import WordAssembler.Proofs.Accounting

/-!
The first pass as a run: each line is read at a fresh pass, and what every line keeps holds of the
whole source. A program without a fatal diagnostic is the reading of all its lines, but for a
warning that END is missing.
-/

set_option autoImplicit false

namespace WordAssembler

namespace Reading

variable (assembler : Assembler) (reading : Reading)

/-- The pass at a source line that is about to be read. -/
def fresh (numbered : Bytes × Nat) : Pass :=
  reading.pass (Line.unread numbered.2 (dropTrailing Lines.isCarriageReturn numbered.1)
    reading.context.location)

theorem fresh_isFresh (numbered : Bytes × Nat) : (reading.fresh numbered).Fresh :=
  ⟨rfl, rfl, rfl, rfl, rfl, rfl⟩

def stepped (numbered : Bytes × Nat) : Pass := (reading.fresh numbered).readLine assembler

variable {reading} in
theorem add_of_running (running : reading.fatal = none) (numbered : Bytes × Nat) :
    add assembler reading numbered =
      afterPass ((reading.stepped assembler numbered).noteLine assembler) reading.lines := by
  rw [add, if_neg (by simp [running])]
  rfl

variable {reading} in
theorem add_of_halted (halted : reading.fatal.isSome = true) (numbered : Bytes × Nat) :
    add assembler reading numbered = reading := by
  rw [add, if_pos halted]

section Running

variable {assembler reading} (running : reading.fatal = none) (numbered : Bytes × Nat)
include running

theorem add_context : (add assembler reading numbered).context =
    (reading.stepped assembler numbered).context := by
  rw [add_of_running assembler running, afterPass, Pass.noteLine_context]

theorem add_symbols : (add assembler reading numbered).symbols =
    (reading.stepped assembler numbered).symbols := by
  rw [add_of_running assembler running, afterPass, Pass.noteLine_symbols]

theorem add_lines : (add assembler reading numbered).lines =
    (reading.stepped assembler numbered).line :: reading.lines := by
  rw [add_of_running assembler running, afterPass, Pass.noteLine_line]

theorem add_fatal : (add assembler reading numbered).fatal =
    (reading.stepped assembler numbered).fatal := by
  rw [add_of_running assembler running, afterPass, Pass.noteLine_fatal]

/-- Of two readings whose passes stop at the same lines, the second goes on as the first does. -/
theorem add_running {second : Reading} (open_ : second.fatal = none) {other : Bytes × Nat}
    (alike : (second.stepped assembler other).fatal.isSome =
      (reading.stepped assembler numbered).fatal.isSome)
    (going : (add assembler reading numbered).fatal = none) :
    (add assembler second other).fatal = none := by
  rw [add_fatal running] at going
  rw [going] at alike
  rw [add_fatal open_]
  simpa using alike

end Running

/-! ### Runs -/

theorem ofLines_concat (lines : List Bytes) (line : Bytes) :
    ofLines assembler (lines ++ [line]) =
      add assembler (ofLines assembler lines) (line, lines.length + 1) := by
  simp only [ofLines, List.zipIdx_append, List.foldl_append, List.zipIdx_cons, List.zipIdx_nil,
    List.foldl_cons, List.foldl_nil, Nat.add_comm 1]

/-- What holds at the start and is kept by every line holds after every source. -/
theorem ofLines_induction {assembler : Assembler} (holds : Reading → Prop) (base : holds initial)
    (step : ∀ reading numbered, holds reading → holds (add assembler reading numbered))
    (lines : List Bytes) : holds (ofLines assembler lines) := by
  induction lines using List.reverseRecOn with
  | nil => exact base
  | append_singleton lines line ih =>
    rw [ofLines_concat]
    exact step _ _ ih

/-- A reading that has a fault reports it in its state, and the other way round. -/
def Synchronized (reading : Reading) : Prop := reading.context.fatal = reading.fatal.isSome

theorem add_synchronized (numbered : Bytes × Nat) (synchronized : reading.Synchronized) :
    (add assembler reading numbered).Synchronized := by
  cases halted : reading.fatal.isSome with
  | true =>
    rw [add_of_halted assembler halted]
    exact synchronized
  | false =>
    have running : reading.fatal = none := by simpa using halted
    obtain ⟨added, reports⟩ := (reading.fresh numbered).readLine_follows assembler
    rw [Synchronized, add_context running, add_fatal running, stepped, reports.halted,
      reports.fatal]
    exact congrArg (· || _) synchronized

theorem ofLines_synchronized (lines : List Bytes) : (ofLines assembler lines).Synchronized :=
  ofLines_induction Synchronized rfl (add_synchronized assembler) lines

/-- The pass runs up to a line only if it ran up to each line before. -/
theorem running_of_append {lines more : List Bytes}
    (running : (ofLines assembler (lines ++ more)).fatal = none) :
    (ofLines assembler lines).fatal = none := by
  induction more using List.reverseRecOn with
  | nil => simpa using running
  | append_singleton more line ih =>
    apply ih
    rw [← List.append_assoc, ofLines_concat] at running
    cases halted : (ofLines assembler (lines ++ more)).fatal with
    | none => rfl
    | some fault =>
      rw [add_of_halted assembler (by simp [halted]), halted] at running
      cases running

/-- What relates two readings, and is kept by every line that both read, relates them after any more
lines, as long as the first has no fatal diagnostic. -/
theorem relates_append {relates : Reading → Reading → Prop}
    (step : ∀ first second numbered, relates first second → first.fatal = none →
      (add assembler first numbered).fatal = none →
        relates (add assembler first numbered) (add assembler second numbered))
    {sources others : List Bytes} (length : others.length = sources.length)
    (base : relates (ofLines assembler sources) (ofLines assembler others)) {after : List Bytes}
    (running : (ofLines assembler (sources ++ after)).fatal = none) :
    relates (ofLines assembler (sources ++ after)) (ofLines assembler (others ++ after)) := by
  induction after using List.reverseRecOn with
  | nil =>
    rw [List.append_nil, List.append_nil]
    exact base
  | append_singleton after line ih =>
    rw [← List.append_assoc] at running
    have earlier := running_of_append assembler running
    have numbers : (others ++ after).length = (sources ++ after).length := by
      rw [List.length_append, List.length_append, length]
    rw [← List.append_assoc, ← List.append_assoc, ofLines_concat, ofLines_concat, numbers]
    rw [ofLines_concat] at running
    exact step _ _ _ (ih earlier) earlier running

end Reading

/-! ### Parsed programs -/

/-- The line with the warning that END is missing. -/
def Line.unended (assembler : Assembler) (line : Line) : Line :=
  { line with diagnostics := line.diagnostics ++ [assembler.catalog.lookup .noEnd] }

namespace Reading

variable {assembler : Assembler} {reading : Reading}

/-- The program as read, with the warning on its last line if END is missing. -/
inductive Closed (assembler : Assembler) (reading : Reading) (program : Program) : Prop
  | ended (same : program = reading.program)
  | unended (last : Line) (earlier : List Line) (lines : reading.lines = last :: earlier)
      (same : program = ⟨reading.context.count [assembler.catalog.lookup .noEnd],
        (last.unended assembler :: earlier).reverse, reading.symbols⟩)

/-- A reading without END ends with a warning on its last line. -/
theorem finish_of_unended (assembler : Assembler) (running : reading.fatal = none)
    {last : Line} {earlier : List Line} (lines : reading.lines = last :: earlier)
    (unended : reading.context.ended = false) :
    (reading.finish assembler).fatal = none ∧ (reading.finish assembler).program =
      ⟨reading.context.count [assembler.catalog.lookup .noEnd],
        (last.unended assembler :: earlier).reverse, reading.symbols⟩ := by
  have mild : Key.noEnd.severity ≠ .fatal := by decide
  rw [finish, if_neg (by simp [running]), if_neg (by simp [lines]), if_neg (by simp [unended])]
  simp [reportLast, lines, afterPass, program, pass, Line.unended, mild, running]

/-- A reading without a fault ends as it is, or with the warning that END is missing. -/
theorem finish_running (synchronized : reading.Synchronized)
    (running : (reading.finish assembler).context.fatal = false) :
    reading.fatal = none ∧ reading.Closed assembler (reading.finish assembler).program := by
  unfold finish at running ⊢
  split at running
  · rename_i halted
    rw [synchronized, halted] at running
    cases running
  · rename_i unhalted
    rw [if_neg unhalted]
    refine ⟨by simpa using unhalted, ?_⟩
    split at running
    · rename_i empty
      have empty : reading.lines = [] := by simpa using empty
      rw [reportLast, empty] at running
      simp [afterPass, Context.count, Key.noStart] at running
    · rename_i nonempty
      rw [if_neg nonempty]
      split
      · exact .ended rfl
      · cases lines : reading.lines with
        | nil => simp [lines] at nonempty
        | cons last earlier =>
          refine .unended last earlier lines ?_
          simp [reportLast, lines, afterPass, program, pass, Line.unended]

end Reading

/-- The program of a source that was read without a fatal diagnostic. -/
theorem Assembler.parse_running (assembler : Assembler) (text : Bytes)
    (running : (assembler.parse text).program.context.fatal = false) :
    (Reading.ofLines assembler (Lines.read text).lines).fatal = none ∧
      (Reading.ofLines assembler (Lines.read text).lines).Closed assembler
        (assembler.parse text).program := by
  have synchronized := Reading.ofLines_synchronized assembler (Lines.read text).lines
  unfold parse at running ⊢
  dsimp only at running ⊢
  split at running
  · rename_i tooLong
    rw [if_pos tooLong]
    simp only [Bool.and_eq_true, Option.isNone_iff_eq_none] at tooLong
    exact ⟨tooLong.2, .ended rfl⟩
  · rename_i inside
    rw [if_neg inside]
    exact Reading.finish_running synchronized running

end WordAssembler

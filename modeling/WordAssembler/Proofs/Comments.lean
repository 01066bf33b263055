import WordAssembler.Proofs.Alike
import WordAssembler.Proofs.Beginning
import WordAssembler.Proofs.Parallel

/-!
Comments and blank lines are inert. A source with comments after its lines, and with blank lines put
in between, assembles to the same object file. Its own lines have the diagnostics they had, and the
blank lines have none.
-/

set_option autoImplicit false

namespace WordAssembler

/-! ### Lists with items put in -/

/-- The second list is the first with items put in: a mark says of each item of the second whether
it stands for the next item of the first or is extra. -/
inductive Woven {α β : Type} (same : α → β → Prop) (extra : β → Prop) :
    List Bool → List α → List β → Prop
  | nil : Woven same extra [] [] []
  | kept {marks : List Bool} {items : List α} {others : List β} {item : α} {other : β}
      (here : same item other) (later : Woven same extra marks items others) :
      Woven same extra (true :: marks) (item :: items) (other :: others)
  | added {marks : List Bool} {items : List α} {others : List β} {other : β}
      (here : extra other) (later : Woven same extra marks items others) :
      Woven same extra (false :: marks) items (other :: others)

namespace Woven

variable {α β γ δ : Type} {same : α → β → Prop} {extra : β → Prop} {marks : List Bool}
  {items : List α} {others : List β}

theorem length (woven : Woven same extra marks items others) :
    others.length = marks.length := by
  induction woven with
  | nil => rfl
  | kept _ _ ih => rw [List.length_cons, List.length_cons, ih]
  | added _ _ ih => rw [List.length_cons, List.length_cons, ih]

theorem length_le (woven : Woven same extra marks items others) :
    items.length ≤ others.length := by
  induction woven with
  | nil => exact Nat.le_refl _
  | kept _ _ ih => exact Nat.succ_le_succ ih
  | added _ _ ih => exact Nat.le_succ_of_le ih

theorem imp {related : α → β → Prop} {surplus : β → Prop}
    (woven : Woven same extra marks items others)
    (keep : ∀ item other, same item other → related item other)
    (add : ∀ other, extra other → surplus other) :
    Woven related surplus marks items others := by
  induction woven with
  | nil => exact .nil
  | kept here _ ih => exact .kept (keep _ _ here) ih
  | added here _ ih => exact .added (add _ here) ih

/-- The same work on both lists. -/
theorem map {related : γ → δ → Prop} {surplus : δ → Prop} {left : α → γ} {right : β → δ}
    (woven : Woven same extra marks items others)
    (keep : ∀ item other, same item other → related (left item) (right other))
    (add : ∀ other, extra other → surplus (right other)) :
    Woven related surplus marks (items.map left) (others.map right) := by
  induction woven with
  | nil => exact .nil
  | kept here _ ih => exact .kept (keep _ _ here) ih
  | added here _ ih => exact .added (add _ here) ih

/-- What extra items give nothing to. -/
theorem flatMap_eq {left : α → List γ} {right : β → List γ}
    (woven : Woven same extra marks items others)
    (keep : ∀ item other, same item other → right other = left item)
    (add : ∀ other, extra other → right other = []) :
    others.flatMap right = items.flatMap left := by
  induction woven with
  | nil => rfl
  | kept here _ ih => rw [List.flatMap_cons, List.flatMap_cons, keep _ _ here, ih]
  | added here _ ih => rw [List.flatMap_cons, add _ here, List.nil_append, ih]

theorem filterMap_eq {left : α → Option γ} {right : β → Option γ}
    (woven : Woven same extra marks items others)
    (keep : ∀ item other, same item other → right other = left item)
    (add : ∀ other, extra other → right other = none) :
    others.filterMap right = items.filterMap left := by
  induction woven with
  | nil => rfl
  | kept here _ ih => rw [List.filterMap_cons, List.filterMap_cons, keep _ _ here, ih]
  | added here _ ih => rw [List.filterMap_cons_none (add _ here), ih]

theorem append {later : List Bool} {more : List α} {rest : List β}
    (woven : Woven same extra marks items others) (after : Woven same extra later more rest) :
    Woven same extra (marks ++ later) (items ++ more) (others ++ rest) := by
  induction woven with
  | nil => exact after
  | kept here _ ih => exact .kept here ih
  | added here _ ih => exact .added here ih

theorem reverse (woven : Woven same extra marks items others) :
    Woven same extra marks.reverse items.reverse others.reverse := by
  induction woven with
  | nil => exact .nil
  | kept here _ ih =>
    simp only [List.reverse_cons]
    exact ih.append (.kept here .nil)
  | @added _ items _ _ here _ ih =>
    simp only [List.reverse_cons]
    rw [← List.append_nil items.reverse]
    exact ih.append (.added here .nil)

end Woven

/-! ### Lines -/

namespace Line

/-- Two lines that differ at most in number, text and comment. -/
def Same (first second : Line) : Prop := second.bare = first.bare

/-- A line that says nothing, and of which nothing is said. -/
structure Inert (line : Line) : Prop where
  unaddressed : line.addressed = false
  unstated : line.statement = none
  quiet : line.diagnostics = []

theorem Same.keys {first second : Line} (same : first.Same second) : second.keys = first.keys :=
  (congrArg Line.keys same :)

theorem Inert.keys {line : Line} (inert : line.Inert) : line.keys = [] := by
  rw [Line.keys, inert.quiet]
  rfl

/-- What depends on nothing but the bare line. -/
theorem Same.congr {first second : Line} (same : first.Same second) {α : Type} (give : Line → α)
    (bare : ∀ line, give line.bare = give line) : give second = give first := by
  rw [← bare second, same, bare]

end Line

/-- The lines of a source with comments after them and blank lines put in. -/
def Lines.Annotated (marks : List Bool) (lines others : List Bytes) : Prop :=
  Woven (fun line other => Commented (Line.trimmed line) (Line.trimmed other))
    (fun other => Line.isBlank (Line.trimmed other) = true) marks lines others

/-! ### The first pass -/

namespace Pass

/-- A blank line that is not the first says nothing. -/
theorem readLine_of_blank {p : Pass} (assembler : Assembler) (later : p.line.number ≠ 1)
    (blank : Line.isBlank p.line.source = true) : p.readLine assembler = p.readBlank := by
  rw [readLine, if_neg (fun first => later first.1), if_neg (by simp [blank]),
    if_pos (Or.inr blank)]

/-- A line that is read without a fatal diagnostic is START if it is the first. -/
theorem isStart_of_running (p : Pass) {assembler : Assembler} (first : p.line.number = 1)
    (running : (p.readLine assembler).fatal = none) :
    assembler.isStart p.line.source = true := by
  cases start : assembler.isStart p.line.source with
  | true => rfl
  | false =>
    have noStart : Key.noStart.severity = .fatal := rfl
    rw [readLine, if_pos ⟨first, by simp [start]⟩, report_fatal, if_pos noStart,
      Option.or_eq_none_iff] at running
    exact absurd running.2 (Option.some_ne_none _)

end Pass

namespace Reading

/-- Two readings, the second with blank lines put in, of the same program. -/
structure Annotates (marks : List Bool) (first second : Reading) : Prop where
  context : second.context.uncounted = first.context.uncounted
  symbols : second.symbols = first.symbols
  running : second.fatal = none
  lines : Woven Line.Same Line.Inert marks first.lines second.lines

variable {assembler : Assembler} {marks : List Bool} {first second : Reading}

/-- A line with a comment after it, read where the line is. -/
theorem Annotates.kept (annotates : Annotates marks first second) {source other : Bytes}
    (commented : Commented (Line.trimmed source) (Line.trimmed other)) {number position : Nat}
    (opening : position = 1 → number = 1) (running : first.fatal = none)
    (stays : (add assembler first (source, number)).fatal = none) :
    Annotates (true :: marks) (add assembler first (source, number))
      (add assembler second (other, position)) := by
  have started : number = 1 → assembler.isStart (Line.trimmed source) = true := by
    intro here
    apply Pass.isStart_of_running (first.fresh (source, number)) here
    rw [← stays, add_fatal running]
    rfl
  have alike : Pass.Alike (first.stepped assembler (source, number))
      (second.stepped assembler (other, position)) := by
    have fresh := fresh_alike annotates.context annotates.symbols running annotates.running
      (source, number) (other, position)
    apply fresh.readLine assembler commented
    -- Neither line is refused for being first: the line is START then, and a comment leaves it so.
    apply iff_of_false
    · rintro ⟨here, unstarted⟩
      have start : assembler.isStart (second.fresh (other, position)).line.source = true :=
        commented.isStart (started (opening here))
      rw [start] at unstarted
      cases unstarted
    · rintro ⟨here, unstarted⟩
      have start : assembler.isStart (first.fresh (source, number)).line.source = true :=
        started here
      rw [start] at unstarted
      cases unstarted
  refine ⟨?_, ?_, ?_, ?_⟩
  · rw [add_context running, add_context annotates.running, alike.context]
  · rw [add_symbols running, add_symbols annotates.running, alike.symbols]
  · exact add_running running _ annotates.running alike.fatal stays
  · rw [add_lines running, add_lines annotates.running]
    exact .kept alike.line annotates.lines

/-- A blank line changes nothing but the lines. -/
theorem Annotates.added (annotates : Annotates marks first second) {other : Bytes}
    (blank : Line.isBlank (Line.trimmed other) = true) {position : Nat} (later : position ≠ 1) :
    Annotates (false :: marks) first (add assembler second (other, position)) := by
  have stepped : second.stepped assembler (other, position) =
      (second.fresh (other, position)).readBlank :=
    Pass.readLine_of_blank assembler later blank
  refine ⟨?_, ?_, ?_, ?_⟩
  · rw [add_context annotates.running, stepped]
    exact annotates.context
  · rw [add_symbols annotates.running, stepped]
    exact annotates.symbols
  · rw [add_fatal annotates.running, stepped]
    exact annotates.running
  · rw [add_lines annotates.running, stepped]
    exact .added ⟨rfl, rfl, rfl⟩ annotates.lines

/-- Reading lines with comments and blank lines; both sources are given last line first. -/
theorem annotates_ofLines (assembler : Assembler) {sources others : List Bytes}
    (annotated : Lines.Annotated marks sources others) (opening : marks.getLast? ≠ some false)
    (running : (ofLines assembler sources.reverse).fatal = none) :
    Annotates marks (ofLines assembler sources.reverse) (ofLines assembler others.reverse) := by
  unfold Lines.Annotated at annotated
  -- Each step of the induction reads one more line, and the last mark is that of the first line.
  induction annotated with
  | nil => exact ⟨rfl, rfl, rfl, .nil⟩
  | @kept marks sources others source other here later ih =>
    rw [List.reverse_cons] at running
    have before := running_of_append assembler running
    have opened : marks.getLast? ≠ some false := by
      cases marks with
      | nil => exact nofun
      | cons mark marks => rwa [List.getLast?_cons_cons] at opening
    have length := later.length_le
    rw [List.reverse_cons, List.reverse_cons, ofLines_concat, ofLines_concat]
    rw [ofLines_concat] at running
    refine (ih opened before).kept here ?_ before running
    simp only [List.length_reverse]
    omega
  | @added marks sources others other here later ih =>
    have opened : marks ≠ [] ∧ marks.getLast? ≠ some false := by
      cases marks with
      | nil => exact absurd rfl opening
      | cons mark marks =>
        rw [List.getLast?_cons_cons] at opening
        exact ⟨List.cons_ne_nil _ _, opening⟩
    have filled : 0 < marks.length := List.length_pos_iff.2 opened.1
    have length := later.length
    rw [List.reverse_cons, ofLines_concat]
    apply (ih opened.2 running).added here
    rw [List.length_reverse]
    omega

end Reading

/-! ### The second pass -/

namespace Scope

variable (scope : Scope) (assembler : Assembler)

theorem lineAfter_bare (line : Line) :
    scope.lineAfter assembler line.bare = (scope.lineAfter assembler line).bare := by
  have resolved : scope.resolution line.bare = scope.resolution line := rfl
  have addressed : line.bare.addressed = line.addressed := rfl
  unfold lineAfter
  rw [resolved, addressed]
  split
  · cases scope.resolution line <;> rfl
  · rfl

theorem lineAfter_same {first second : Line} (same : first.Same second) :
    (scope.lineAfter assembler first).Same (scope.lineAfter assembler second) := by
  unfold Line.Same
  rw [← lineAfter_bare, ← lineAfter_bare, same]

theorem record_bare (line : Line) :
    scope.record assembler line.bare = scope.record assembler line := by
  unfold record
  rw [lineAfter_bare]
  rfl

section Woven

variable {marks : List Bool} {lines others : List Line}
  (woven : Woven Line.Same Line.Inert marks lines others)
include woven

theorem lines_woven : Woven Line.Same Line.Inert marks (lines.map (scope.lineAfter assembler))
    (others.map (scope.lineAfter assembler)) := by
  refine woven.map (fun _ _ same => scope.lineAfter_same assembler same) fun line inert => ?_
  rw [lineAfter, if_neg (by simp [inert.unaddressed])]
  exact inert

theorem remarks_woven :
    others.flatMap (scope.remarks assembler) = lines.flatMap (scope.remarks assembler) := by
  refine woven.flatMap_eq (fun _ _ same => ?_) fun line inert => ?_
  · exact same.congr (scope.remarks assembler) fun _ => rfl
  · rw [remarks, if_neg (by simp [inert.unaddressed])]

theorem linking_woven : others.filterMap scope.linking? = lines.filterMap scope.linking? := by
  refine woven.filterMap_eq (fun _ _ same => ?_) fun line inert => ?_
  · exact same.congr scope.linking? fun _ => rfl
  · rw [linking?, if_neg (by simp [inert.unaddressed]), Emission.resetLinking?, Line.directive?,
      inert.unstated]

theorem modifications_woven :
    others.filterMap scope.modification? = lines.filterMap scope.modification? := by
  refine woven.filterMap_eq (fun _ _ same => ?_) fun line inert => ?_
  · exact same.congr scope.modification? fun _ => rfl
  · rw [modification?, if_neg (by simp [inert.unaddressed])]

theorem records_woven : (others.filter (·.addressed)).map (scope.record assembler) =
    (lines.filter (·.addressed)).map (scope.record assembler) := by
  induction woven with
  | nil => rfl
  | @kept _ lines others line other same _ ih =>
    have addressed : other.addressed = line.addressed := (congrArg Line.addressed same :)
    have record := same.congr (scope.record assembler) (scope.record_bare assembler)
    rw [List.filter_cons, List.filter_cons, addressed]
    split
    · rw [List.map_cons, List.map_cons, record, ih]
    · exact ih
  | added inert _ ih => rw [List.filter_cons_of_neg (by simp [inert.unaddressed]), ih]

end Woven

end Scope

/-- Exporting an entry says nothing of blank lines, and the same of the others. -/
theorem Emission.exportsAlike_woven (assembler : Assembler) (marks : List Bool) :
    ExportsAlike assembler (Woven Line.Same Line.Inert marks) := by
  intro label lines others woven
  have unnamed : ∀ line : Line, line.Inert → entryRemarks assembler label line = [] := by
    intro line inert
    simp [entryRemarks, namesEntry, Line.directive?, inert.unstated]
  have remarked : ∀ line : Line, (withEntryRemarks assembler label line).bare =
      withEntryRemarks assembler label line.bare := fun _ => rfl
  refine ⟨woven.flatMap_eq (fun _ _ same => ?_) unnamed, woven.map (fun line other same => ?_)
    fun line inert => ?_⟩
  · exact same.congr (entryRemarks assembler label) fun _ => rfl
  · rw [Line.Same, remarked, remarked, same]
  · rw [withEntryRemarks, unnamed line inert]
    exact ⟨inert.unaddressed, inert.unstated, by rw [inert.quiet]; rfl⟩

/-! ### Sources -/

theorem Reading.finish_of_ended {reading : Reading} (assembler : Assembler)
    (running : reading.fatal = none) (filled : reading.lines ≠ [])
    (ended : reading.context.ended = true) : reading.finish assembler = reading := by
  rw [finish, if_neg (by simp [running]), if_neg (by simpa using filled), if_pos ended]

theorem Reading.finish_context_ended (reading : Reading) (assembler : Assembler) :
    (reading.finish assembler).context.ended = reading.context.ended := by
  have reported : ∀ key, (reading.reportLast assembler key).context.ended =
      reading.context.ended := by
    intro key
    unfold reportLast
    split <;> simp [afterPass, pass, Context.count]
  unfold finish
  repeat' split
  · rfl
  · exact reported _
  · rfl
  · exact reported _

namespace Assembler

variable {assembler : Assembler} {text : Bytes}

/-- A source that is read to its END is the reading of its lines. -/
theorem parse_of_ended (short : (Lines.read text).tooLong = false)
    (running : (Reading.ofLines assembler (Lines.read text).lines).fatal = none)
    (filled : (Reading.ofLines assembler (Lines.read text).lines).lines ≠ [])
    (ended : (Reading.ofLines assembler (Lines.read text).lines).context.ended = true) :
    (assembler.parse text).fault = none ∧ (assembler.parse text).program =
      (Reading.ofLines assembler (Lines.read text).lines).program := by
  unfold parse
  dsimp only
  rw [if_neg (by simp [short]), Reading.finish_of_ended assembler running filled ended, running]
  exact ⟨rfl, rfl⟩

theorem reading_of_ended (read : (assembler.parse text).fault = none)
    (ended : (assembler.parse text).program.context.ended = true) :
    (Lines.read text).tooLong = false ∧
      (Reading.ofLines assembler (Lines.read text).lines).fatal = none ∧
      (Reading.ofLines assembler (Lines.read text).lines).lines ≠ [] ∧
      (Reading.ofLines assembler (Lines.read text).lines).context.ended = true := by
  obtain ⟨running, _⟩ := assembler.parse_running text (running_of_read read)
  have filled : (Reading.ofLines assembler (Lines.read text).lines).lines ≠ [] := by
    apply List.ne_nil_of_length_pos
    rw [Reading.lines_length running]
    exact List.length_pos_iff.2 (lines_ne_nil_of_read read)
  unfold parse at read ended
  dsimp only at read ended
  split at read
  · cases read
  · rename_i short
    rw [if_neg short] at ended
    rw [running] at short
    refine ⟨by simpa using short, running, filled, ?_⟩
    rw [← Reading.finish_context_ended _ assembler]
    exact ended

/-- A source with comments and blank lines put in is read to the same program. -/
theorem parse_annotated {annotated : Bytes} {marks : List Bool}
    (lines : Lines.Annotated marks (Lines.read text).lines (Lines.read annotated).lines)
    (opening : marks.head? = some true) (fits : (Lines.read annotated).tooLong = false)
    (read : (assembler.parse text).fault = none)
    (ended : (assembler.parse text).program.context.ended = true) :
    (assembler.parse annotated).fault = none ∧
      (assembler.parse annotated).program.context.uncounted =
        (assembler.parse text).program.context.uncounted ∧
      (assembler.parse annotated).program.symbols = (assembler.parse text).program.symbols ∧
      Woven Line.Same Line.Inert marks (assembler.parse text).program.lines
        (assembler.parse annotated).program.lines := by
  obtain ⟨short, running, filled, reached⟩ := reading_of_ended read ended
  have annotates : Reading.Annotates marks.reverse
      (Reading.ofLines assembler (Lines.read text).lines)
      (Reading.ofLines assembler (Lines.read annotated).lines) := by
    have reversed : Lines.Annotated marks.reverse (Lines.read text).lines.reverse
      (Lines.read annotated).lines.reverse := Woven.reverse lines
    have read := Reading.annotates_ofLines assembler reversed
    simp only [List.reverse_reverse, List.getLast?_reverse] at read
    exact read (by simp [opening]) running
  have finished : (Reading.ofLines assembler (Lines.read annotated).lines).context.ended = true :=
    (congrArg Context.ended annotates.context :).trans reached
  have nonempty : (Reading.ofLines assembler (Lines.read annotated).lines).lines ≠ [] := by
    apply List.ne_nil_of_length_pos
    exact Nat.lt_of_lt_of_le (List.length_pos_iff.2 filled) annotates.lines.length_le
  obtain ⟨fault, program⟩ := parse_of_ended fits annotates.running nonempty finished
  rw [program, (parse_of_ended short running filled reached).2]
  refine ⟨fault, annotates.context, annotates.symbols, ?_⟩
  have woven := annotates.lines.reverse
  rwa [List.reverse_reverse] at woven

/-- The program with comments and blank lines put in is emitted as the program is. -/
theorem emit_annotated {program annotated : Program} {marks : List Bool} {date : Date}
    {emitted : Emitted} (context : annotated.context.uncounted = program.context.uncounted)
    (symbols : annotated.symbols = program.symbols)
    (lines : Woven Line.Same Line.Inert marks program.lines annotated.lines)
    (success : assembler.emit program date = .ok emitted) :
    ∃ other, assembler.emit annotated date = .ok other ∧ other.file = emitted.file ∧
      other.program.symbols = emitted.program.symbols ∧
      Woven Line.Same Line.Inert marks emitted.program.lines other.program.lines := by
  have agrees : ∀ lines others, Woven Line.Same Line.Inert marks lines others →
      program.scope.Agrees assembler lines others := by
    intro lines others woven
    exact ⟨Scope.remarks_woven _ assembler woven, Scope.linking_woven _ woven,
      Scope.records_woven _ assembler woven, Scope.modifications_woven _ woven⟩
  obtain ⟨other, again, file, table, exported, reexported, woven, before, after⟩ :=
    emit_related context (Emission.exportsAlike_woven assembler marks) agrees symbols lines success
  refine ⟨other, again, file, table, ?_⟩
  rw [before, after]
  exact Scope.lines_woven _ assembler woven

/-- A source that assembles and reaches END assembles to the same object file when comments are put
after its lines and blank lines after the first of them. The symbols are the same, its own lines
have the same diagnostics, and the blank lines have none. -/
theorem comments_inert (assembler : Assembler) {text annotated : Bytes} {date : Date}
    {file : ObjectFile} {marks : List Bool}
    (lines : Lines.Annotated marks (Lines.read text).lines (Lines.read annotated).lines)
    (opening : marks.head? = some true) (fits : (Lines.read annotated).tooLong = false)
    (success : (assembler.assemble text date).outcome = .ok file)
    (ended : (assembler.parse text).program.context.ended = true) :
    (assembler.assemble annotated date).outcome = .ok file ∧
      (assembler.assemble annotated date).program.symbols =
        (assembler.assemble text date).program.symbols ∧
      Woven (fun line other => other.keys = line.keys) (fun other => other.keys = []) marks
        (assembler.assemble text date).program.lines
        (assembler.assemble annotated date).program.lines := by
  obtain ⟨read, emitted, emission, program, rfl⟩ := assemble_ok success
  obtain ⟨fault, context, symbols, woven⟩ := parse_annotated lines opening fits read ended
  obtain ⟨other, again, file, table, after⟩ := emit_annotated context symbols woven emission
  have assembled : assembler.assemble annotated date =
      ⟨other.program, .ok other.file, (assembler.parse annotated).log ++ other.log⟩ := by
    simp only [assemble, fault, again]
  rw [assembled, program, file]
  exact ⟨rfl, table, after.imp (fun _ _ same => same.keys) fun _ inert => inert.keys⟩

end Assembler

/-- A source with a warning. -/
def bareSource : Bytes :=
  ascii "PROG START 0\nHere DAT 5\r\n CNTL CLRD,5\n JUMP EQUAL Here\n END PROG"

/-- The source with comments after some lines, and with blank lines and comments put in. -/
def remarkedSource : Bytes :=
  ascii "PROG START 0 : begins\n: data\nHere DAT 5\t:\n CNTL CLRD,5\n\n" ++
    ascii " JUMP EQUAL Here :5 :6\r\n END PROG ::\n \t\n :end"

theorem Assembler.comments_inert_remarkedSource : ∃ file,
    Lines.Annotated [true, false, true, true, false, true, true, false, false]
        (Lines.read bareSource).lines (Lines.read remarkedSource).lines ∧
      (Assembler.assemble {} bareSource Date.first).outcome = .ok file ∧
      (Assembler.parse {} bareSource).program.context.ended = true ∧
      (Assembler.assemble {} remarkedSource Date.first).outcome = .ok file ∧
      Woven (fun line other => other.keys = line.keys) (fun other => other.keys = [])
        [true, false, true, true, false, true, true, false, false]
        (Assembler.assemble {} bareSource Date.first).program.lines
        (Assembler.assemble {} remarkedSource Date.first).program.lines := by
  have bare : (Lines.read bareSource).lines = [ascii "PROG START 0", ascii "Here DAT 5",
      ascii " CNTL CLRD,5", ascii " JUMP EQUAL Here", ascii " END PROG"] := by decide +kernel
  have remarked : (Lines.read remarkedSource).lines =
      [Line.trimmed (ascii "PROG START 0") ++ byte ' ' :: byte ':' :: ascii " begins",
        ascii ": data",
        Line.trimmed (ascii "Here DAT 5") ++ byte '\t' :: byte ':' :: [],
        ascii " CNTL CLRD,5", [],
        Line.trimmed (ascii " JUMP EQUAL Here") ++ byte ' ' :: byte ':' :: ascii "5 :6",
        Line.trimmed (ascii " END PROG") ++ byte ' ' :: byte ':' :: ascii ":",
        ascii " \t", ascii " :end"] := by decide +kernel
  have annotated : Lines.Annotated [true, false, true, true, false, true, true, false, false]
      (Lines.read bareSource).lines (Lines.read remarkedSource).lines := by
    rw [bare, remarked]
    refine .kept (Line.commented_trimmed _ rfl _) (.added (by decide) ?_)
    refine .kept (Line.commented_trimmed _ rfl _) (.kept .same (.added rfl ?_))
    refine .kept (Line.commented_trimmed _ rfl _) (.kept (Line.commented_trimmed _ rfl _) ?_)
    exact .added (by decide) (.added (by decide) .nil)
  have ended : (Assembler.parse {} bareSource).program.context.ended = true := by decide +kernel
  have fits : (Lines.read remarkedSource).tooLong = false := by decide +kernel
  have assembles : (Assembler.assemble {} bareSource Date.first).outcome.isOk = true := by
    decide +kernel
  cases success : (Assembler.assemble {} bareSource Date.first).outcome with
  | error fault =>
    rw [success] at assembles
    cases assembles
  | ok file =>
    obtain ⟨same, _, keys⟩ := Assembler.comments_inert {} annotated rfl fits success ended
    exact ⟨file, annotated, rfl, ended, same, keys⟩

end WordAssembler
